/-
  File:      Sprocket/Console.lean
  Subject:   THE CONSOLE: what the UART is given while handlers interrupt the main code, and after
             a panic at any moment.

  `print` and the logger lock `CONSOLE`, hand their text to the UART byte by byte and drop the
  guard; the handler of the serial port locks it to read a byte. Main code and handlers do so at any
  time, on the machine of `Spinlock`: an interrupt may arrive between any two instructions. The UART
  is polled at most 128 times and is then given the byte, ready or not. The results are about its
  data port, since `CONSOLE` exists: what the UART sends of a byte it was not ready for is not
  modelled. Before `logger::init` a record is not logged.

  `panic_fmt` may be called with `CONSOLE` locked and any number of guards outstanding. It disables
  interrupts, unlocks `CONSOLE` by force, resets the two globals of `spinlock` and logs twice.

  * `instr_fits` -- one instruction keeps the place of a call in the code of `lock` and `drop`;
  * `records_whole` -- what the data port was given is the calls that are over, each as a whole, and
    the beginning of at most one more; no call is left out, doubled or moved before an earlier one
    of the same party;
  * `step_ready` -- one instruction of `panic_fmt`;
  * `panic_heard` -- with the logger set and a UART, the data port is given both records of a panic
    in a bounded number of instructions, from any state of the locks; interrupts stay off.
-/
import Mathlib.Data.List.Basic
import Mathlib.Logic.Function.Basic
import Sprocket.Lib.Trace
import Sprocket.Spinlock

namespace Sprocket.Console

open Spinlock

/-! ## 1. The text of a call -/

inductive LogLevel where
  | error
  | warn
  | info
  | debug
  | trace
  deriving DecidableEq, Repr

/-- The order of the levels. -/
def LogLevel.toNat : LogLevel → Nat
  | error => 1
  | warn => 2
  | info => 3
  | debug => 4
  | trace => 5

structure LogRecord where
  level : LogLevel
  modulePath : List Char
  args : List Char
  deriving DecidableEq, Repr

/-- `SimpleLogger::enabled` -/
def enabled (level : LogLevel) : Bool := level.toNat ≤ LogLevel.debug.toNat

def red : List Char := "41m".toList
def yellow : List Char := "43m".toList
def cyan : List Char := "44m".toList
def white : List Char := "47m".toList
def green : List Char := "42m".toList

/-- The letter and the colour of a level. -/
def badge : LogLevel → Char × List Char
  | .error => ('E', red)
  | .warn => ('W', yellow)
  | .info => ('I', green)
  | .debug => ('D', cyan)
  | .trace => ('T', white)

/-- `str::rfind`, counted in characters. -/
def rfind (s pattern : List Char) : Option Nat :=
  (List.range (s.length + 1)).reverse.find? fun i => pattern.isPrefixOf (s.drop i)

/-- The format `{:<n}`. -/
def leftAligned (n : Nat) (s : List Char) : List Char := s ++ List.replicate (n - s.length) ' '

/-- What `SimpleLogger::log` writes. -/
def logText (record : LogRecord) : List Char :=
  let esc := "\x1b[".toList
  let reset := "\x1b[0m".toList
  let text := "\x1b[30m".toList
  let (letter, colorCode) := badge record.level
  let loc := record.modulePath
  let idx := match rfind loc "::".toList with
    | some i => i + 2
    | none => 0
  (esc ++ colorCode ++ text ++ [' ', letter, ' '] ++ reset) ++
    ([' '] ++ leftAligned 10 (loc.drop idx) ++ [' ']) ++ (record.args ++ ['\n'])

/-- A use of `CONSOLE`. -/
inductive Call where
  | log (record : LogRecord)
  | print (text : List Char)
  | readByte
  deriving DecidableEq, Repr

/-- The bytes given to `write_str`. -/
def Call.text : Call → List UInt8
  | .log record => (logText record).flatMap String.utf8EncodeChar
  | .print text => text.flatMap String.utf8EncodeChar
  | .readByte => []

/-- The call locks `CONSOLE`: a record does not before there is a logger, nor does one below the
    level of the logger. -/
def Call.loud (logging : Bool) : Call → Bool
  | .log record => logging && enabled record.level
  | _ => true

abbrev backspace : UInt8 := 0x08
abbrev asciiBackspace : UInt8 := 0x7f

/-- `Console::write_byte`: the bytes for the UART, if there is one. -/
def writeByte (uart : Bool) (b : UInt8) : List UInt8 :=
  if uart then
    if b = asciiBackspace then [backspace, 0x20, backspace]
    else if b = 0x0d then [0x0a]
    else [b]
  else []

/-- The bytes the UART is given for a call. -/
def Call.wire (uart : Bool) (c : Call) : List UInt8 := c.text.flatMap (writeByte uart)

/-! ## 2. The machine -/

/-- Where a party is in a call: the bytes for the UART still to go, and how often the UART is still
    polled before the next one. -/
inductive Job where
  | none
  | saying (c : Call) (rest : List UInt8) (polls : Nat)
  deriving DecidableEq, Repr

/-- The call a party is in. -/
def Job.call : Job → Option Call
  | .none => Option.none
  | .saying c _ _ => some c

/-- The machine, from the moment `CONSOLE` exists. `logging`: `logger::init` has been called. `port`
    is what has been written to the data port of the UART since `Uart::init`. -/
structure Machine where
  locks : Spinlock.State
  mainJob : Job
  handlerJob : Job
  logging : Bool
  port : List UInt8

/-- A handler runs. -/
def Machine.who (s : Machine) : Bool := s.locks.handler.isSome

def Machine.job (s : Machine) (who : Bool) : Job := if who then s.handlerJob else s.mainJob

def Machine.setJob (s : Machine) (j : Job) : Machine :=
  if s.who then { s with handlerJob := j } else { s with mainJob := j }

inductive Label where
  | say (who : Bool) (c : Call)
  | poll
  | put
  | done (who : Bool) (c : Call)
  | initLogger
  | locks (e : Event)

section

variable (console : UInt32) (uart : Bool)

/-- **What can happen next.** The party that runs begins a call by locking `CONSOLE`, polls, writes
    a byte, or ends the call by dropping the guard. Main code sets the logger, once. Whatever else
    happens does not lock or drop `CONSOLE`: the parties use other mutexes, handlers come and go. -/
inductive Step : Machine → Label → Machine → Prop where
  | say {s : Machine} {c : Call} {l : Spinlock.State} (hjob : s.job s.who = .none)
      (hloud : c.loud s.logging = true) (hl : Spinlock.Step s.locks (.lock console) l) :
      Step s (.say s.who c) { s.setJob (.saying c (c.wire uart) 128) with locks := l }
  | poll {s : Machine} {c : Call} {b : UInt8} {rest : List UInt8} {k : Nat} (status : UInt8)
      (hidle : s.locks.running.pc = .idle) (hjob : s.job s.who = .saying c (b :: rest) (k + 1)) :
      Step s .poll (s.setJob (.saying c (b :: rest) (if status &&& 0x20 ≠ 0 then 0 else k)))
  | put {s : Machine} {c : Call} {b : UInt8} {rest : List UInt8}
      (hidle : s.locks.running.pc = .idle) (hjob : s.job s.who = .saying c (b :: rest) 0) :
      Step s .put { s.setJob (.saying c rest 128) with port := s.port ++ [b] }
  | done {s : Machine} {c : Call} {k : Nat} {l : Spinlock.State}
      (hjob : s.job s.who = .saying c [] k) (hl : Spinlock.Step s.locks (.drop console) l) :
      Step s (.done s.who c) { s.setJob .none with locks := l }
  | initLogger {s : Machine} (hmain : s.who = false) (hidle : s.locks.running.pc = .idle)
      (hjob : s.job s.who = .none) (hlogging : s.logging = false) :
      Step s .initLogger { s with logging := true }
  | locks {s : Machine} {e : Event} {l : Spinlock.State} (hlock : e ≠ .lock console)
      (hdrop : e ≠ .drop console) (hl : Spinlock.Step s.locks e l) :
      Step s (.locks e) { s with locks := l }

end

/-- No call has been made, there is no logger, and the interrupt flag is `b`. -/
def Machine.start (b : Bool) : Machine where
  locks := State.start b
  mainJob := .none
  handlerJob := .none
  logging := false
  port := []

/-! ## 3. Calls are not torn apart -/

/-- The calls that are over, in the order in which they ended. -/
def Label.finished : Label → Option Call
  | .done _ c => some c
  | _ => none

def finished (ls : List Label) : List Call := ls.filterMap Label.finished

/-- The calls of one party that are over. -/
def Label.finishedBy (who : Bool) : Label → Option Call
  | .done w c => if w = who then some c else none
  | _ => none

def finishedBy (who : Bool) (ls : List Label) : List Call := ls.filterMap (Label.finishedBy who)

/-- The calls of one party, in the order in which it made them. -/
def Label.madeBy (who : Bool) : Label → Option Call
  | .say w c => if w = who then some c else none
  | _ => none

def madeBy (who : Bool) (ls : List Label) : List Call := ls.filterMap (Label.madeBy who)

section

variable (console : UInt32) (uart : Bool)

/-- **The place of a party in a call**: it is locking `CONSOLE` and has written nothing, or it has
    the guard of `CONSOLE`; between calls neither. -/
def Fits (p : Party) : Job → Prop
  | .none => p.pc.locking ≠ some console ∧ console ∉ p.held
  | .saying c rest _ =>
    (console ∉ p.held ∧ p.pc.locking = some console ∧ rest = c.wire uart) ∨ console ∈ p.held

/-- What the call has written so far. -/
def Wrote (p : Party) (out : List UInt8) : Job → Prop
  | .none => out = []
  | .saying c rest _ => if console ∈ p.held then out ++ rest = c.wire uart else out = []

end

section Calls

variable {console : UInt32} {uart : Bool}

theorem wrote_held {p : Party} {c : Call} {out rest : List UInt8} {k : Nat}
    (h : console ∈ p.held) :
    Wrote console uart p out (.saying c rest k) ↔ out ++ rest = c.wire uart :=
  iff_of_eq (if_pos h)

theorem wrote_waiting {p : Party} {c : Call} {out rest : List UInt8} {k : Nat}
    (h : console ∉ p.held) : Wrote console uart p out (.saying c rest k) ↔ out = [] :=
  iff_of_eq (if_neg h)

/-- **One instruction of `lock` or `drop` keeps the place**, and writes nothing. -/
theorem instr_fits {c c' : Cpu} {p : Party} {pc : Pc} {j : Job} {out : List UInt8}
    (hi : instr c p.pc = some (c', pc)) (hfits : Fits console uart p j)
    (hwrote : Wrote console uart p out j) :
    Fits console uart (p.goOn pc) j ∧ Wrote console uart (p.goOn pc) out j := by
  by_cases hidle : pc = .idle
  · -- the call returns: `CONSOLE` is taken if the party is in a call and does not hold it yet
    subst hidle
    cases j with
    | none =>
      refine ⟨⟨by simp [Pc.locking], ?_⟩, hwrote⟩
      simpa [hfits.2] using hfits.1
    | saying d rest k =>
      have htaken : console ∈ (p.goOn .idle).held := by
        rcases hfits with ⟨-, hlocking, -⟩ | hmem <;> simp [*]
      refine ⟨.inr htaken, (wrote_held htaken).mpr ?_⟩
      by_cases hmem : console ∈ p.held
      · exact (wrote_held hmem).mp hwrote
      · obtain ⟨-, -, hrest⟩ := hfits.resolve_right hmem
        rw [(wrote_waiting hmem).mp hwrote, hrest]
        rfl
  · have hheld : (p.goOn pc).held = p.held := goOn_held hidle
    have hlocking : pc.locking = p.pc.locking := ((instr_nears hi).2.resolve_left hidle).1
    cases j with
    | none =>
      unfold Fits
      rw [goOn_pc, hlocking, hheld]
      exact ⟨hfits, hwrote⟩
    | saying d rest k =>
      unfold Fits Wrote at *
      rw [goOn_pc, hlocking, hheld]
      exact ⟨hfits, hwrote⟩

/-- **What holds after every run**, of the machine and the labels of the run. -/
structure Calls (console : UInt32) (uart : Bool) (ls : List Label) (s : Machine) : Prop where
  locks : Inv s.locks
  fits : Fits console uart s.locks.running (s.job s.who)
  behind : s.who = true → Fits console uart s.locks.main s.mainJob
  quiet : s.who = false → s.handlerJob = .none
  wrote : ∃ out, s.port = (finished ls).flatMap (Call.wire uart) ++ out ∧
    Wrote console uart s.locks.running out (s.job s.who)
  order : ∀ who, madeBy who ls = finishedBy who ls ++ (s.job who).call.toList

theorem resume_running (l : Spinlock.State) : l.resume l.cpu l.running = l := by
  rcases l with ⟨cpu, main, _ | q⟩ <;> rfl

theorem setJob_port (s : Machine) (j : Job) : (s.setJob j).port = s.port := by
  unfold Machine.setJob
  by_cases h : s.who = true <;> simp [h]

theorem setJob_locks (s : Machine) (j : Job) : (s.setJob j).locks = s.locks := by
  unfold Machine.setJob
  by_cases h : s.who = true <;> simp [h]

theorem setJob_job (s : Machine) : s.setJob (s.job s.who) = s := by
  unfold Machine.setJob Machine.job
  by_cases h : s.who = true <;> simp [h]

/-- The labels of a run, one more at the end. -/
theorem filterMap_snoc (f : Label → Option Call) (ls : List Label) (l : Label) :
    (ls ++ [l]).filterMap f = ls.filterMap f ++ (f l).toList := by
  rw [List.filterMap_append]
  cases h : f l <;> simp [h]

theorem finished_snoc (ls : List Label) (l : Label) :
    finished (ls ++ [l]) = finished ls ++ l.finished.toList := filterMap_snoc _ ls l

theorem madeBy_snoc (who : Bool) (ls : List Label) (l : Label) :
    madeBy who (ls ++ [l]) = madeBy who ls ++ (l.madeBy who).toList := filterMap_snoc _ ls l

theorem finishedBy_snoc (who : Bool) (ls : List Label) (l : Label) :
    finishedBy who (ls ++ [l]) = finishedBy who ls ++ (l.finishedBy who).toList :=
  filterMap_snoc _ ls l

/-- **The party that runs moves on**, in the code of a lock, in its call, or in both: what it had to
    say before the step and in it is what it has said and still has to say. -/
theorem Calls.moves {ls : List Label} {s : Machine} (h : Calls console uart ls s) {c : Cpu}
    {p : Party} {j : Job} {written : List UInt8} {l : Label} (hinv : Inv (s.locks.resume c p))
    (hfits : Fits console uart p j)
    (hwrote : ∀ out, Wrote console uart s.locks.running out (s.job s.who) → ∃ out',
      out ++ written = l.finished.toList.flatMap (Call.wire uart) ++ out' ∧
      Wrote console uart p out' j)
    (hown : (s.job s.who).call.toList ++ (l.madeBy s.who).toList =
      (l.finishedBy s.who).toList ++ j.call.toList)
    (hother : l.madeBy (!s.who) = none ∧ l.finishedBy (!s.who) = none) :
    Calls console uart (ls ++ [l])
      { s.setJob j with locks := s.locks.resume c p, port := s.port ++ written } := by
  have hport : ∃ out, s.port ++ written = (finished (ls ++ [l])).flatMap (Call.wire uart) ++ out ∧
      Wrote console uart p out j := by
    obtain ⟨out, hport, hbefore⟩ := h.wrote
    obtain ⟨out', hsaid, hafter⟩ := hwrote out hbefore
    refine ⟨out', ?_, hafter⟩
    rw [hport, finished_snoc, List.flatMap_append, List.append_assoc, List.append_assoc, hsaid]
  have hmoved : madeBy s.who (ls ++ [l]) = finishedBy s.who (ls ++ [l]) ++ j.call.toList := by
    rw [madeBy_snoc, finishedBy_snoc, h.order, List.append_assoc, List.append_assoc, hown]
  have hkept : madeBy (!s.who) (ls ++ [l]) =
      finishedBy (!s.who) (ls ++ [l]) ++ (s.job (!s.who)).call.toList := by
    rw [madeBy_snoc, finishedBy_snoc, hother.1, hother.2, Option.toList_none, List.append_nil,
      List.append_nil, h.order]
  rcases s with ⟨⟨cpu, main, _ | q⟩, mainJob, handlerJob, port⟩
  · refine ⟨hinv, hfits, fun hwho => ?_, fun _ => h.quiet rfl, hport, fun who => ?_⟩
    · cases hwho
    · cases who
      · exact hmoved
      · exact hkept
  · refine ⟨hinv, hfits, fun _ => h.behind rfl, fun hwho => ?_, hport, fun who => ?_⟩
    · cases hwho
    · cases who
      · exact hkept
      · exact hmoved

/-- The party that runs moves on and writes nothing. -/
theorem Calls.movesSilently {ls : List Label} {s : Machine} (h : Calls console uart ls s) {c : Cpu}
    {p : Party} {j : Job} {l : Label} (hinv : Inv (s.locks.resume c p))
    (hfits : Fits console uart p j)
    (hwrote : ∀ out, Wrote console uart s.locks.running out (s.job s.who) → ∃ out',
      out = l.finished.toList.flatMap (Call.wire uart) ++ out' ∧ Wrote console uart p out' j)
    (hown : (s.job s.who).call.toList ++ (l.madeBy s.who).toList =
      (l.finishedBy s.who).toList ++ j.call.toList)
    (hother : l.madeBy (!s.who) = none ∧ l.finishedBy (!s.who) = none) :
    Calls console uart (ls ++ [l]) { s.setJob j with locks := s.locks.resume c p } := by
  have hmoved : Calls console uart (ls ++ [l])
      { s.setJob j with locks := s.locks.resume c p, port := s.port ++ [] } :=
    h.moves hinv hfits (by simpa only [List.append_nil] using hwrote) hown hother
  rw [List.append_nil, ← setJob_port s j] at hmoved
  exact hmoved

/-- The party that runs moves on in the code of a lock, in no call or in the middle of one. -/
theorem Calls.lockMoves {ls : List Label} {s : Machine} (h : Calls console uart ls s) {c : Cpu}
    {p : Party} {e : Event} (hinv : Inv (s.locks.resume c p))
    (hfits : ∀ out, Wrote console uart s.locks.running out (s.job s.who) →
      Fits console uart p (s.job s.who) ∧ Wrote console uart p out (s.job s.who)) :
    Calls console uart (ls ++ [.locks e]) { s with locks := s.locks.resume c p } := by
  obtain ⟨out, -, hbefore⟩ := h.wrote
  have hmoved : Calls console uart (ls ++ [.locks e])
      { s.setJob (s.job s.who) with locks := s.locks.resume c p } :=
    h.movesSilently hinv (hfits out hbefore).1
      (fun out hout => ⟨out, rfl, (hfits out hout).2⟩) (List.append_nil _) ⟨rfl, rfl⟩
  rw [setJob_job] at hmoved
  exact hmoved

/-- Starting or ending a lock of another mutex does not change the place in a call. -/
theorem fits_other {p q : Party} {j : Job} {out : List UInt8} (hidle : p.pc = .idle)
    (hheld : console ∈ q.held ↔ console ∈ p.held) (hlocking : q.pc.locking ≠ some console)
    (hfits : Fits console uart p j) (hwrote : Wrote console uart p out j) :
    Fits console uart q j ∧ Wrote console uart q out j := by
  cases j with
  | none => exact ⟨⟨hlocking, fun hmem => hfits.2 (hheld.mp hmem)⟩, hwrote⟩
  | saying c rest k =>
    have hmem : console ∈ p.held := by
      rcases hfits with ⟨-, hnone, -⟩ | hmem
      · rw [hidle] at hnone
        cases hnone
      · exact hmem
    exact ⟨.inr (hheld.mpr hmem),
      (wrote_held (hheld.mpr hmem)).mpr ((wrote_held hmem).mp hwrote)⟩

/-- With no guard a party that runs has written nothing of its call. -/
theorem wrote_nil {p : Party} {j : Job} {out : List UInt8} (hheld : p.held = [])
    (hwrote : Wrote console uart p out j) : out = [] := by
  cases j with
  | none => exact hwrote
  | saying c rest k =>
    exact (wrote_waiting (hheld ▸ List.not_mem_nil)).mp hwrote

theorem wrote_of_nil {p : Party} {j : Job} (hheld : p.held = []) : Wrote console uart p [] j := by
  cases j with
  | none => rfl
  | saying c rest k =>
    exact (wrote_waiting (hheld ▸ List.not_mem_nil)).mpr rfl

/-- Outside of the lock and without the guard a party is between calls. -/
theorem idle_fits {p : Party} (hidle : p.pc = .idle) (hnot : console ∉ p.held) :
    Fits console uart p .none := by
  refine ⟨?_, hnot⟩
  rw [hidle]
  exact Option.some_ne_none console |>.symm

/-- A party that is outside of the lock and holds nothing is in no call. -/
theorem job_none {p : Party} {j : Job} (hidle : p.pc = .idle) (hheld : p.held = [])
    (hfits : Fits console uart p j) : j = .none := by
  cases j with
  | none => rfl
  | saying c rest k =>
    rcases hfits with ⟨-, hlocking, -⟩ | hmem
    · rw [hidle] at hlocking
      cases hlocking
    · rw [hheld] at hmem
      exact absurd hmem List.not_mem_nil

/-- Outside of the lock a party in a call holds `CONSOLE`. -/
theorem holds_of_saying {p : Party} {c : Call} {rest : List UInt8} {k : Nat} (hidle : p.pc = .idle)
    (hfits : Fits console uart p (.saying c rest k)) : console ∈ p.held := by
  rcases hfits with ⟨-, hlocking, -⟩ | hmem
  · rw [hidle] at hlocking
    cases hlocking
  · exact hmem

theorem who_ne_not (who : Bool) : who ≠ !who := by cases who <;> decide

/-- The party that runs moves on in its call. -/
theorem Calls.jobMoves {ls : List Label} {s : Machine} (h : Calls console uart ls s) {c : Call}
    {rest rest' written : List UInt8} {k k' : Nat} {l : Label} (hidle : s.locks.running.pc = .idle)
    (hjob : s.job s.who = .saying c rest k) (hrest : rest = written ++ rest')
    (hfinished : l.finished = none) (hby : ∀ who, l.madeBy who = none ∧ l.finishedBy who = none) :
    Calls console uart (ls ++ [l])
      { s.setJob (.saying c rest' k') with port := s.port ++ written } := by
  have hholds := holds_of_saying hidle (hjob ▸ h.fits)
  have hmoved : Calls console uart (ls ++ [l])
      { s.setJob (.saying c rest' k') with
        locks := s.locks.resume s.locks.cpu s.locks.running, port := s.port ++ written } := by
    refine h.moves ?_ ?_ (fun out hout => ?_) ?_ (hby _)
    · rw [resume_running]
      exact h.locks
    · exact .inr hholds
    · rw [hjob, wrote_held hholds, hrest, ← List.append_assoc] at hout
      exact ⟨out ++ written, by rw [hfinished]; rfl, (wrote_held hholds).mpr hout⟩
    · rw [hjob, (hby _).1, (hby _).2]
      rfl
  rw [resume_running, ← setJob_locks s (.saying c rest' k')] at hmoved
  exact hmoved

/-- A label that is not about a call changes neither list. -/
theorem order_other {ls : List Label} {l : Label} {who : Bool} {pending : List Call}
    (hmade : l.madeBy who = none) (hover : l.finishedBy who = none)
    (h : madeBy who ls = finishedBy who ls ++ pending) :
    madeBy who (ls ++ [l]) = finishedBy who (ls ++ [l]) ++ pending := by
  rw [madeBy_snoc, finishedBy_snoc, hmade, hover]
  simpa using h

/-- **A handler starts**: the main code holds nothing and has written nothing of its call. -/
theorem Calls.interrupt {ls : List Label} {s : Machine} (h : Calls console uart ls s)
    (hno : s.locks.handler = none) (hif : s.locks.cpu.ifFlag = true)
    (hinv : Inv { s.locks with
      cpu := { s.locks.cpu with ifFlag := false }, handler := some ⟨[], .idle, false⟩ }) :
    Calls console uart (ls ++ [.locks .interrupt]) { s with
      locks := { s.locks with
        cpu := { s.locks.cpu with ifFlag := false }, handler := some ⟨[], .idle, false⟩ } } := by
  have hheld := (h.locks.running.open hif).1
  obtain ⟨out, hport, hwrote⟩ := h.wrote
  rw [wrote_nil hheld hwrote] at hport
  rcases s with ⟨⟨cpu, main, hd⟩, mainJob, handlerJob, port⟩
  cases hno
  have hquiet : handlerJob = .none := h.quiet rfl
  subst hquiet
  refine ⟨hinv, idle_fits rfl List.not_mem_nil, fun _ => h.fits, fun hwho => ?_, ⟨[], ?_, rfl⟩,
    fun who => order_other rfl rfl ?_⟩
  · cases hwho
  · rw [finished_snoc]
    simpa [Label.finished] using hport
  · cases who <;> exact h.order _

/-- **A handler returns**: it is in no call, and the main code goes on where it was. -/
theorem Calls.iret {ls : List Label} {s : Machine} {p : Party} (h : Calls console uart ls s)
    (hp : s.locks.handler = some p) (hidle : p.pc = .idle) (hheld : p.held = [])
    (hinv : Inv { s.locks with cpu := { s.locks.cpu with ifFlag := true }, handler := none }) :
    Calls console uart (ls ++ [.locks .iret]) { s with
      locks := { s.locks with cpu := { s.locks.cpu with ifFlag := true }, handler := none } } := by
  obtain ⟨out, hport, hwrote⟩ := h.wrote
  rcases s with ⟨⟨cpu, main, hd⟩, mainJob, handlerJob, port⟩
  cases hp
  rw [wrote_nil hheld hwrote] at hport
  have hquiet : handlerJob = .none := job_none hidle hheld h.fits
  have hmain : main.held = [] := ((h.locks.2.2.2 false).open rfl).1
  refine ⟨hinv, h.behind rfl, fun hwho => ?_, fun _ => hquiet, ⟨[], ?_, wrote_of_nil hmain⟩,
    fun who => order_other rfl rfl ?_⟩
  · cases hwho
  · rw [finished_snoc]
    simpa [Label.finished] using hport
  · cases who <;> exact h.order _

/-- The logger is set: that is not a call. -/
theorem Calls.initLogger {ls : List Label} {s : Machine} (h : Calls console uart ls s) :
    Calls console uart (ls ++ [.initLogger]) { s with logging := true } := by
  obtain ⟨out, hport, hwrote⟩ := h.wrote
  refine ⟨h.locks, h.fits, h.behind, h.quiet, ⟨out, ?_, hwrote⟩,
    fun who => order_other rfl rfl (h.order who)⟩
  rw [finished_snoc]
  simpa [Label.finished] using hport

theorem step_calls (ls : List Label) (s : Machine) (l : Label) (t : Machine)
    (h : Calls console uart ls s) (hst : Step console uart s l t) :
    Calls console uart (ls ++ [l]) t := by
  cases hst with
  | @say c l hjob hloud hl =>
    have hinv := step_inv _ _ _ h.locks hl
    cases hl with
    | lock hidle hm hnew =>
      refine h.movesSilently hinv (.inl ⟨hnew, rfl, rfl⟩) (fun out hout => ?_) ?_ ?_
      · rw [hjob] at hout
        exact ⟨[], hout, (wrote_waiting (k := 128) hnew).mpr rfl⟩
      · rw [hjob]
        simp [Job.call, Label.madeBy, Label.finishedBy]
      · exact ⟨if_neg (who_ne_not s.who), rfl⟩
  | @poll c b rest k status hidle hjob =>
    have hmoved : Calls console uart (ls ++ [.poll])
        { s.setJob (.saying c (b :: rest) (if status &&& 0x20 ≠ 0 then 0 else k)) with
          port := s.port ++ [] } :=
      h.jobMoves hidle hjob (List.nil_append _).symm rfl fun _ => ⟨rfl, rfl⟩
    rw [List.append_nil, ← setJob_port s] at hmoved
    exact hmoved
  | @put c b rest hidle hjob =>
    exact h.jobMoves (l := .put) hidle hjob List.singleton_append.symm rfl fun _ => ⟨rfl, rfl⟩
  | @done c k l hjob hl =>
    have hinv := step_inv _ _ _ h.locks hl
    cases hl with
    | drop hidle hm =>
      have hgone : console ∉ (s.locks.running.callDrop console).held :=
        h.locks.running.nodup.not_mem_erase
      refine h.movesSilently hinv ⟨by simp [Party.callDrop, Pc.locking], hgone⟩
        (fun out hout => ?_) ?_ ?_
      · rw [hjob, wrote_held hm, List.append_nil] at hout
        exact ⟨[], by rw [hout]; simp [Label.finished], rfl⟩
      · rw [hjob]
        simp [Job.call, Label.madeBy, Label.finishedBy]
      · exact ⟨rfl, if_neg (who_ne_not s.who)⟩
  | initLogger hmain hidle hjob hlogging => exact h.initLogger
  | @locks e l hlock hdrop hl =>
    have hinv := step_inv _ _ _ h.locks hl
    cases hl with
    | lock hidle hm hnew =>
      exact h.lockMoves hinv fun out hwrote =>
        fits_other hidle Iff.rfl (fun he => hlock (by cases he; rfl)) h.fits hwrote
    | @drop m hidle hm =>
      have hother : console ≠ m := fun he => hdrop (by rw [he])
      exact h.lockMoves hinv fun out hwrote =>
        fits_other hidle (List.mem_erase_of_ne hother) (by simp [Party.callDrop, Pc.locking])
          h.fits hwrote
    | instr hi =>
      exact h.lockMoves hinv fun out hwrote => instr_fits hi h.fits hwrote
    | interrupt hno hif => exact h.interrupt hno hif hinv
    | iret hp hidle hheld => exact h.iret hp hidle hheld hinv
    | setFlag b hno hidle hcount =>
      rcases s with ⟨⟨cpu, main, hd⟩, mainJob, handlerJob, port⟩
      cases hno
      exact h.lockMoves (c := { cpu with ifFlag := b }) (p := main) hinv fun out hwrote =>
        ⟨h.fits, hwrote⟩

theorem start_calls (b : Bool) : Calls console uart [] (Machine.start b) := by
  refine ⟨start_inv b, idle_fits rfl List.not_mem_nil, fun hwho => ?_, fun _ => rfl, ⟨[], rfl, rfl⟩,
    fun who => ?_⟩
  · cases hwho
  · cases who <;> rfl

/-- **The UART is given whole calls.** Whatever main code and handlers do and wherever interrupts
    fall: what has been written to the data port is the calls that are over, in the order in which
    they ended and each in one piece, and then, if `CONSOLE` is locked, the beginning of the call of
    the party that runs. Of each party's calls, in the order it made them, all are over but the one
    it is in. -/
theorem records_whole {b : Bool} {ls : List Label} {s : Machine}
    (h : Trace (Step console uart) (Machine.start b) ls s) :
    (∃ out, s.port = (finished ls).flatMap (Call.wire uart) ++ out ∧
      (s.locks.cpu.locked console = false → out = []) ∧
      (out ≠ [] → ∃ c rest k, s.job s.who = .saying c rest k ∧ out ++ rest = c.wire uart)) ∧
    ∀ who, madeBy who ls = finishedBy who ls ++ (s.job who).call.toList := by
  have hcalls := h.history step_calls (start_calls b)
  refine ⟨?_, hcalls.order⟩
  obtain ⟨out, hport, hwrote⟩ := hcalls.wrote
  refine ⟨out, hport, fun hfree => ?_, fun hne => ?_⟩
  · have hnot : console ∉ s.locks.running.held := fun hmem =>
      absurd ((hcalls.locks.running.locked console).mpr (mem_mutexes hmem)) (by simp [hfree])
    cases hjob : s.job s.who with
    | none =>
      rw [hjob] at hwrote
      exact hwrote
    | saying c rest k =>
      rw [hjob] at hwrote
      exact (wrote_waiting hnot).mp hwrote
  · cases hjob : s.job s.who with
    | none =>
      rw [hjob] at hwrote
      exact absurd hwrote hne
    | saying c rest k =>
      rw [hjob] at hwrote
      refine ⟨c, rest, k, rfl, ?_⟩
      by_cases hmem : console ∈ s.locks.running.held
      · exact (wrote_held hmem).mp hwrote
      · exact absurd ((wrote_waiting hmem).mp hwrote) hne

/-- One more instruction of `lock` or `drop`. -/
theorem instr_trace {s t : Machine} {ls : List Label} {c : Cpu} {pc : Pc}
    (h : Trace (Step console uart) s ls t)
    (hi : instr t.locks.cpu t.locks.running.pc = some (c, pc)) :
    Trace (Step console uart) s (ls ++ [.locks .instr])
      { t with locks := t.locks.resume c (t.locks.running.goOn pc) } :=
  h.snoc (.locks (fun he => by cases he) (fun he => by cases he) (.instr hi))

/-- Main code is interrupted on its way to the lock, and the handler reads a byte; then main code
    writes `A`. -/
theorem records_whole_interrupted :
    ∃ ls s, Trace (Step 4096 true) (Machine.start true) ls s ∧ s.port = [65] ∧
      finished ls = [.readByte] ∧
      ∀ who, madeBy who ls = finishedBy who ls ++ (s.job who).call.toList := by
  have called : Trace (Step 4096 true) (Machine.start true) [.say false (.print ['A'])] _ :=
    .single (.say rfl rfl (.lock rfl (by decide) List.not_mem_nil))
  have interrupted := (instr_trace called rfl).snoc
    (.locks (fun he => by cases he) (fun he => by cases he) (.interrupt rfl rfl))
  have listens := interrupted.snoc
    (.say (c := .readByte) rfl rfl (.lock rfl (by decide) List.not_mem_nil))
  have closed := instr_trace (instr_trace (instr_trace listens rfl) rfl) rfl
  have locked := instr_trace (instr_trace (instr_trace closed rfl) rfl) rfl
  have heard := locked.snoc (.done rfl (.drop rfl List.mem_cons_self))
  have counted := instr_trace (instr_trace (instr_trace heard rfl) rfl) rfl
  have returned := (instr_trace (instr_trace counted rfl) rfl).snoc
    (.locks (fun he => by cases he) (fun he => by cases he) (.iret rfl rfl rfl))
  have again := instr_trace (instr_trace (instr_trace returned rfl) rfl) rfl
  have holds := instr_trace (instr_trace again rfl) rfl
  have written := (holds.snoc (.poll 0x20 rfl rfl)).snoc (.put rfl rfl)
  exact ⟨_, _, written, rfl, rfl, (records_whole written).2⟩

end Calls

/-! ## 4. A panic -/

/-- What `panic_fmt` still has to do. -/
inductive PanicOp where
  | forceUnlock
  | storeCount
  | storeEnabled
  | log (record : LogRecord)
  deriving DecidableEq, Repr

/-- The machine in `panic_fmt`: only the party that called it runs. -/
structure Panicked where
  cpu : Cpu
  party : Party
  job : Job
  logging : Bool
  port : List UInt8
  todo : List PanicOp

/-- The records of a panic. -/
def panicRecords (fmt file : List Char) (line : UInt32) : List LogRecord :=
  let loc := "sprocket".toList
  [{ level := .error, modulePath := loc
     args := "Panic! An unrecoverable error occurred at ".toList ++ file ++ [':'] ++
       (toString line.toNat).toList },
   { level := .error, modulePath := loc, args := fmt }]

/-- `panic_fmt` is called and has disabled interrupts. What the party was doing it never goes on
    with, and its guards are not dropped. Without a logger its two records are not logged. -/
def panicFmt (s : Machine) (fmt file : List Char) (line : UInt32) : Panicked where
  cpu := { s.locks.cpu with ifFlag := false }
  party := { s.locks.running with pc := .idle }
  job := .none
  logging := s.logging
  port := s.port
  todo := .forceUnlock :: .storeCount :: .storeEnabled :: (panicRecords fmt file line).map .log

section

variable (console : UInt32) (uart : Bool)

/-- One instruction; `status` is what the UART answers if it is asked. In `loop {}` nothing happens
    any more. -/
def Panicked.step (status : UInt8) (p : Panicked) : Option Panicked :=
  match p.party.pc, p.job with
  | .idle, .none =>
    match p.todo with
    | [] => none
    | .forceUnlock :: todo => some { p with
        cpu := { p.cpu with locked := Function.update p.cpu.locked console false }, todo := todo }
    | .storeCount :: todo => some { p with cpu := { p.cpu with lockCount := 0 }, todo := todo }
    | .storeEnabled :: todo => some { p with
        cpu := { p.cpu with intEnabled := false }, todo := todo }
    | .log record :: todo =>
      if (Call.log record).loud p.logging then some { p with
        party := p.party.callLock p.cpu console
        job := .saying (.log record) ((Call.log record).wire uart) 128
        todo := todo }
      else some { p with todo := todo }
  | .idle, .saying _ [] _ => some { p with party := p.party.callDrop console, job := .none }
  | .idle, .saying c (b :: rest) 0 => some { p with
      job := .saying c rest 128, port := p.port ++ [b] }
  | .idle, .saying c (b :: rest) (k + 1) => some { p with
      job := .saying c (b :: rest) (if status &&& 0x20 ≠ 0 then 0 else k) }
  | _, _ => (instr p.cpu p.party.pc).map fun r =>
      { p with cpu := r.1, party := p.party.goOn r.2 }

/-- As many instructions as there are answers of the UART. -/
def Panicked.run (statuses : List UInt8) (p : Panicked) : Panicked :=
  statuses.foldl (fun p status => (p.step console uart status).getD p) p

/-- The bytes an operation gives the UART. -/
def PanicOp.wire (logging : Bool) : PanicOp → List UInt8
  | .log record => if (Call.log record).loud logging then (Call.log record).wire uart else []
  | _ => []

def Job.rest : Job → List UInt8
  | .none => []
  | .saying _ rest _ => rest

/-- The bytes still to be written. -/
def Panicked.rest (p : Panicked) : List UInt8 :=
  p.job.rest ++ p.todo.flatMap (PanicOp.wire uart p.logging)

/-- A byte takes at most 128 polls and the write; the end of a call begins a drop. -/
def Job.cost : Job → Nat
  | .none => 0
  | .saying _ [] _ => 7
  | .saying _ (_ :: rest) k => 7 + (k + 1) + 129 * rest.length

def PanicOp.cost : PanicOp → Nat
  | .log record => 14 + 129 * ((Call.log record).wire uart).length
  | _ => 1

/-- **A bound on the instructions that are left.** -/
def Panicked.cost (p : Panicked) : Nat :=
  p.party.pc.cost + p.job.cost + (p.todo.map (PanicOp.cost uart)).sum

/-- The flags and the mutex while a record is logged. -/
def Muted (c : Cpu) : Pc → Job → Prop
  | .idle, .none => c.locked console = false ∧ c.lockCount = 0
  | .idle, .saying _ _ _ => c.lockCount = 1
  | .readFlags m, .saying _ _ _ => m = console ∧ c.locked console = false ∧ c.lockCount = 0
  | .disable m b, .saying _ _ _ | .loadCount m b, .saying _ _ _
  | .storeEnabled m b, .saying _ _ _ =>
    m = console ∧ b = false ∧ c.locked console = false ∧ c.lockCount = 0
  | .fetchAdd m, .saying _ _ _ => m = console ∧ c.locked console = false ∧ c.lockCount = 0
  | .acquire m, .saying _ _ _ => m = console ∧ c.locked console = false ∧ c.lockCount = 1
  | .release m, .none => m = console ∧ c.lockCount = 1
  | .fence, .none | .fetchSub, .none => c.locked console = false ∧ c.lockCount = 1
  | .testCount, .none | .testEnabled, .none => c.locked console = false ∧ c.lockCount = 0
  | _, _ => False

/-- **What holds of every state of `panic_fmt`**: interrupts are off, and once the globals are reset
    nothing can turn them on or keep `CONSOLE` from being locked. -/
def Ready (p : Panicked) : Prop :=
  p.cpu.ifFlag = false ∧ ∃ records : List LogRecord,
    (p.todo = records.map .log ∧ p.cpu.intEnabled = false ∧ Muted console p.cpu p.party.pc p.job) ∨
    (p.party.pc = .idle ∧ p.job = .none ∧
      (p.todo = .storeEnabled :: records.map .log ∧ p.cpu.locked console = false ∧
        p.cpu.lockCount = 0 ∨
      p.todo = .storeCount :: .storeEnabled :: records.map .log ∧ p.cpu.locked console = false ∨
      p.todo = .forceUnlock :: .storeCount :: .storeEnabled :: records.map .log))

end

section Panic

variable {console : UInt32} {uart : Bool}

/-- **One instruction of `lock` or `drop`**: `CONSOLE` is free, and interrupts are not enabled. -/
theorem instr_muted {c : Cpu} {pc : Pc} {j : Job} (hmuted : Muted console c pc j)
    (hif : c.ifFlag = false) (hen : c.intEnabled = false) (hpc : pc ≠ .idle) :
    ∃ c' pc', instr c pc = some (c', pc') ∧ Muted console c' pc' j ∧ c'.ifFlag = false ∧
      c'.intEnabled = false := by
  cases j with
  | none =>
    cases pc with
    | release m =>
      obtain ⟨rfl, hcount⟩ := hmuted
      exact ⟨_, _, rfl, ⟨Function.update_self .., hcount⟩, hif, hen⟩
    | fence => exact ⟨_, _, rfl, hmuted, hif, hen⟩
    | fetchSub =>
      obtain ⟨hfree, hcount⟩ := hmuted
      refine ⟨_, _, rfl, ⟨hfree, ?_⟩, hif, hen⟩
      rw [hcount]
      rfl
    | testCount =>
      refine ⟨c, .testEnabled, ?_, hmuted, hif, hen⟩
      dsimp only [instr]
      rw [if_pos hmuted.2]
    | testEnabled =>
      refine ⟨c, .idle, ?_, hmuted, hif, hen⟩
      dsimp only [instr]
      rw [if_neg (by simp [hen])]
    | idle => exact absurd rfl hpc
    | _ => exact hmuted.elim
  | saying d rest k =>
    cases pc with
    | readFlags m =>
      obtain ⟨rfl, hfree, hcount⟩ := hmuted
      exact ⟨_, _, rfl, ⟨rfl, hif, hfree, hcount⟩, hif, hen⟩
    | disable m b => exact ⟨_, _, rfl, hmuted, rfl, hen⟩
    | loadCount m b =>
      refine ⟨c, .storeEnabled m b, ?_, hmuted, hif, hen⟩
      dsimp only [instr]
      rw [if_pos hmuted.2.2.2]
    | storeEnabled m b =>
      obtain ⟨hm, hb, hfree, hcount⟩ := hmuted
      exact ⟨_, _, rfl, ⟨hm, hfree, hcount⟩, hif, hb⟩
    | fetchAdd m =>
      obtain ⟨hm, hfree, hcount⟩ := hmuted
      refine ⟨_, _, rfl, ⟨hm, hfree, ?_⟩, hif, hen⟩
      rw [hcount]
      rfl
    | acquire m =>
      obtain ⟨rfl, hfree, hcount⟩ := hmuted
      refine ⟨{ c with locked := Function.update c.locked m true }, .idle, ?_, hcount, hif, hen⟩
      dsimp only [instr]
      rw [if_neg (by simp [hfree])]
    | idle => exact absurd rfl hpc
    | _ => exact hmuted.elim

theorem step_instr {p : Panicked} (hpc : p.party.pc ≠ .idle) (status : UInt8) :
    p.step console uart status =
      (instr p.cpu p.party.pc).map fun r => { p with cpu := r.1, party := p.party.goOn r.2 } := by
  rcases p with ⟨cpu, ⟨held, pc, before⟩, job, logging, port, todo⟩
  cases pc with
  | idle => exact absurd rfl hpc
  | _ => rfl

theorem cost_saying (c : Call) (rest : List UInt8) :
    (Job.saying c rest 128).cost = 7 + 129 * rest.length := by
  cases rest with
  | nil => rfl
  | cons b rest =>
    simp only [Job.cost, List.length_cons]
    omega

theorem cost_byte (c : Call) (b : UInt8) (rest : List UInt8) (k : Nat) :
    (Job.saying c (b :: rest) k).cost = 7 + (k + 1) + 129 * rest.length := rfl

/-- Everything has been done. -/
def Panicked.Parked (console : UInt32) (uart : Bool) (p : Panicked) : Prop :=
  p.rest uart = [] ∧ ∀ status, p.step console uart status = none

/-- What a step of `panic_fmt` leads to. -/
def Nears (console : UInt32) (uart : Bool) (p q : Panicked) : Prop :=
  Ready console q ∧ q.cost uart < p.cost uart ∧
    ∃ out, q.port = p.port ++ out ∧ p.rest uart = out ++ q.rest uart

theorem Panicked.silent {p q : Panicked} (hport : q.port = p.port)
    (hrest : q.rest uart = p.rest uart) :
    ∃ out, q.port = p.port ++ out ∧ p.rest uart = out ++ q.rest uart :=
  ⟨[], hport.trans (List.append_nil _).symm, hrest.symm⟩

/-- The next record is logged, or there is none. -/
theorem step_log {p : Panicked} {records : List LogRecord} (hif : p.cpu.ifFlag = false)
    (hen : p.cpu.intEnabled = false) (htodo : p.todo = records.map .log)
    (hpc : p.party.pc = .idle) (hjob : p.job = .none)
    (hmuted : Muted console p.cpu .idle .none) (status : UInt8) :
    p.Parked console uart ∨
    ∃ q, p.step console uart status = some q ∧ Nears console uart p q := by
  rcases p with ⟨cpu, ⟨held, pc, before⟩, job, logging, port, todo⟩
  cases htodo
  cases hpc
  cases hjob
  obtain ⟨hfree, hcount⟩ := hmuted
  cases records with
  | nil => exact .inl ⟨rfl, fun _ => rfl⟩
  | cons record records =>
    right
    by_cases hloud : (Call.log record).loud logging = true
    · refine ⟨_, if_pos hloud, ⟨hif, records, .inl ⟨rfl, hen, rfl, hfree, hcount⟩⟩, ?_, ?_⟩
      · simp only [Panicked.cost, PanicOp.cost, Pc.cost, Party.callLock, cost_saying,
          List.map_cons, List.sum_cons]
        omega
      · exact Panicked.silent rfl (by simp [Panicked.rest, PanicOp.wire, Job.rest, hloud])
    · refine ⟨_, if_neg hloud, ⟨hif, records, .inl ⟨rfl, hen, hfree, hcount⟩⟩, ?_, ?_⟩
      · simp [Panicked.cost, PanicOp.cost]
      · exact Panicked.silent rfl (by simp [Panicked.rest, PanicOp.wire, hloud])

/-- The UART is asked or given a byte, or the call ends. -/
theorem step_saying {p : Panicked} {records : List LogRecord} {c : Call} {rest : List UInt8}
    {k : Nat} (hif : p.cpu.ifFlag = false) (hen : p.cpu.intEnabled = false)
    (htodo : p.todo = records.map .log) (hpc : p.party.pc = .idle)
    (hjob : p.job = .saying c rest k) (hcount : p.cpu.lockCount = 1) (status : UInt8) :
    ∃ q, p.step console uart status = some q ∧ Nears console uart p q := by
  rcases p with ⟨cpu, ⟨held, pc, before⟩, job, logging, port, todo⟩
  cases htodo
  cases hpc
  cases hjob
  cases rest with
  | nil =>
    refine ⟨_, rfl, ⟨hif, records, .inl ⟨rfl, hen, rfl, hcount⟩⟩, ?_, Panicked.silent rfl rfl⟩
    simp [Panicked.cost, Pc.cost, Party.callDrop, Job.cost]
  | cons b rest =>
    cases k with
    | zero =>
      refine ⟨_, rfl, ⟨hif, records, .inl ⟨rfl, hen, hcount⟩⟩, ?_, ?_⟩
      · simp only [Panicked.cost, cost_saying, cost_byte]
        omega
      · exact ⟨[b], rfl, rfl⟩
    | succ k =>
      refine ⟨_, rfl, ⟨hif, records, .inl ⟨rfl, hen, hcount⟩⟩, ?_, Panicked.silent rfl rfl⟩
      simp only [Panicked.cost, cost_byte]
      split <;> omega

/-- **One instruction of `panic_fmt`**: there is one unless everything has been done, and it brings
    the end closer. -/
theorem step_ready {p : Panicked} (h : Ready console p) (status : UInt8) :
    p.Parked console uart ∨ ∃ q, p.step console uart status = some q ∧ Nears console uart p q := by
  obtain ⟨hif, records, ⟨htodo, hen, hmuted⟩ | ⟨hidle, hjob, hreset⟩⟩ := h
  · by_cases hpc : p.party.pc = .idle
    · rw [hpc] at hmuted
      cases hjob : p.job with
      | none =>
        rw [hjob] at hmuted
        exact step_log hif hen htodo hpc hjob hmuted status
      | saying c rest k =>
        rw [hjob] at hmuted
        exact .inr (step_saying hif hen htodo hpc hjob hmuted status)
    · obtain ⟨c, pc, hi, hmuted', hif', hen'⟩ := instr_muted hmuted hif hen hpc
      refine .inr ⟨{ p with cpu := c, party := p.party.goOn pc }, ?_,
        ⟨hif', records, .inl ⟨htodo, hen', by rwa [goOn_pc]⟩⟩, ?_, Panicked.silent rfl rfl⟩
      · rw [step_instr hpc, hi]
        rfl
      · unfold Panicked.cost
        rw [goOn_pc]
        exact Nat.add_lt_add_right (Nat.add_lt_add_right (instr_nears hi).1 _) _
  · rcases p with ⟨cpu, ⟨held, pc, before⟩, job, logging, port, todo⟩
    cases hidle
    cases hjob
    right
    rcases hreset with ⟨htodo, hfree, hcount⟩ | ⟨htodo, hfree⟩ | htodo
    · cases htodo
      refine ⟨_, rfl, ⟨hif, records, .inl ⟨rfl, rfl, hfree, hcount⟩⟩, ?_, Panicked.silent rfl rfl⟩
      simp [Panicked.cost, PanicOp.cost]
    · cases htodo
      refine ⟨_, rfl, ⟨hif, records, .inr ⟨rfl, rfl, .inl ⟨rfl, hfree, rfl⟩⟩⟩, ?_,
        Panicked.silent rfl rfl⟩
      simp [Panicked.cost, PanicOp.cost]
    · cases htodo
      refine ⟨_, rfl, ⟨hif, records, .inr ⟨rfl, rfl, .inr (.inl ⟨rfl, ?_⟩)⟩⟩, ?_,
        Panicked.silent rfl rfl⟩
      · exact Function.update_self ..
      · simp [Panicked.cost, PanicOp.cost]

theorem run_cons (status : UInt8) (statuses : List UInt8) (p : Panicked) :
    p.run console uart (status :: statuses) =
      ((p.step console uart status).getD p).run console uart statuses := rfl

theorem run_parked {p : Panicked} (h : p.Parked console uart) (statuses : List UInt8) :
    p.run console uart statuses = p := by
  induction statuses with
  | nil => rfl
  | cons status statuses ih => rw [run_cons, h.2, Option.getD_none, ih]

/-- **Any number of instructions.** -/
theorem run_ready {statuses : List UInt8} : ∀ {p : Panicked}, Ready console p →
    Ready console (p.run console uart statuses) ∧
    (∃ out, (p.run console uart statuses).port = p.port ++ out ∧
      p.rest uart = out ++ (p.run console uart statuses).rest uart) ∧
    (p.cost uart < statuses.length → (p.run console uart statuses).Parked console uart) := by
  induction statuses with
  | nil =>
    exact fun h => ⟨h, Panicked.silent rfl rfl, fun hlt => absurd hlt (Nat.not_lt_zero _)⟩
  | cons status statuses ih =>
    intro p h
    rcases step_ready h status with hparked | ⟨q, hstep, hready, hcost, out, hport, hrest⟩
    · rw [run_parked hparked]
      exact ⟨h, Panicked.silent rfl rfl, fun _ => hparked⟩
    · rw [run_cons, hstep, Option.getD_some]
      obtain ⟨hready', ⟨out', hport', hrest'⟩, hend⟩ := ih hready
      refine ⟨hready', ⟨out ++ out', ?_, ?_⟩, fun hlt => hend ?_⟩
      · rw [hport', hport, List.append_assoc]
      · rw [hrest, hrest', List.append_assoc]
      · rw [List.length_cons] at hlt
        omega

theorem panicFmt_ready (s : Machine) (fmt file : List Char) (line : UInt32) :
    Ready console (panicFmt s fmt file line) :=
  ⟨rfl, panicRecords fmt file line, .inr ⟨rfl, rfl, .inr (.inr rfl)⟩⟩

/-- What a panic says. -/
def panicText (fmt file : List Char) (line : UInt32) : List UInt8 :=
  (panicRecords fmt file line).flatMap fun record => (Call.log record).wire true

/-- What the UART is given of it: all, if there is a logger and a UART. -/
def panicBytes (uart logging : Bool) (fmt file : List Char) (line : UInt32) : List UInt8 :=
  if logging && uart then panicText fmt file line else []

/-- Without a UART nothing is written. -/
theorem wire_off (c : Call) : c.wire false = [] := by
  unfold Call.wire
  induction c.text with
  | nil => rfl
  | cons b bs ih => exact ih

theorem panicFmt_rest (s : Machine) (fmt file : List Char) (line : UInt32) :
    (panicFmt s fmt file line).rest uart = panicBytes uart s.logging fmt file line := by
  unfold Panicked.rest panicBytes panicText
  cases hlogging : s.logging with
  | false => simp [panicFmt, panicRecords, PanicOp.wire, Call.loud, Job.rest, hlogging]
  | true =>
    cases uart <;> simp [panicFmt, panicRecords, PanicOp.wire, Call.loud, Job.rest, hlogging,
      enabled, LogLevel.toNat, wire_off]

theorem panicFmt_cost (s : Machine) (fmt file : List Char) (line : UInt32) :
    (panicFmt s fmt file line).cost uart ≤ 31 + 129 * (panicText fmt file line).length := by
  have hwire : ∀ c : Call, (c.wire uart).length ≤ (c.wire true).length := by
    intro c
    cases uart with
    | false => simp [wire_off]
    | true => exact le_rfl
  obtain ⟨first, second, hrecords⟩ : ∃ first second, panicRecords fmt file line = [first, second] :=
    ⟨_, _, rfl⟩
  have hfirst := hwire (.log first)
  have hsecond := hwire (.log second)
  simp only [Panicked.cost, panicFmt, panicText, hrecords, Pc.cost, Job.cost, PanicOp.cost,
    List.map_cons, List.map_nil, List.sum_cons, List.sum_nil, List.flatMap_cons, List.flatMap_nil,
    List.length_append, List.length_nil]
  omega

/-- **A panic is heard.** Whatever was locked and counted, whoever was writing and however slow the
    UART is: in every state of `panic_fmt` interrupts are off, and the data port of the UART has
    been given what it had been given before and a beginning of the two records of the panic. After
    a number of instructions known in advance it has been given both, and the machine has stopped.
    Before `logger::init`, or without a UART, it is given nothing. -/
theorem panic_heard (s : Machine) (fmt file : List Char) (line : UInt32) (statuses : List UInt8) :
    let q := (panicFmt s fmt file line).run console uart statuses
    q.cpu.ifFlag = false ∧
    (∃ out, q.port = s.port ++ out ∧ out <+: panicBytes uart s.logging fmt file line) ∧
    (31 + 129 * (panicText fmt file line).length < statuses.length →
      q.port = s.port ++ panicBytes uart s.logging fmt file line ∧
      ∀ status, q.step console uart status = none) := by
  intro q
  obtain ⟨hready, ⟨out, hport, hrest⟩, hend⟩ : Ready console q ∧ _ ∧ (_ → q.Parked console uart) :=
    run_ready (panicFmt_ready s fmt file line)
  rw [panicFmt_rest] at hrest
  refine ⟨hready.1, ⟨out, hport, q.rest uart, hrest.symm⟩, fun hlong => ?_⟩
  obtain ⟨hnothing, hstop⟩ := hend ((panicFmt_cost s fmt file line).trans_lt hlong)
  have hall : panicBytes uart s.logging fmt file line = out := by
    rw [hrest, show (panicFmt s fmt file line).run console uart statuses = q from rfl, hnothing,
      List.append_nil]
  exact ⟨hall ▸ hport, hstop⟩

end Panic

end Sprocket.Console
