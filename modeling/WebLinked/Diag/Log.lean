import Mathlib
import WebLinked.Base.Machine

/-!
# The log

`src/diag/diag.cpp:40–60,265–307,354–364,379–411,431–439,484–511`. A line is kept in memory and
goes to a file, which is made the previous one when it has grown to its limit. Whatever holds the
lock is one step, and what `init` and `setLevel` log afterwards is another; the process may end
between any two steps, and another one start. Any call of the file system may fail. Texts are
sequences of bytes, a character each.
-/

namespace WebLinked.Diag.Log

open WebLinked.Base

abbrev Text := List Char

/-- `Level`; `src/diag/diag.h:29`. -/
inductive Level where
  | kTrace
  | kDebug
  | kInfo
  | kWarn
  | kError
  | kFatal
  deriving DecidableEq

instance : LT Level := ⟨fun a b ↦ a.ctorIdx < b.ctorIdx⟩

instance (a b : Level) : Decidable (a < b) := inferInstanceAs (Decidable (a.ctorIdx < b.ctorIdx))

/-- `levelToString`; `src/diag/diag.cpp:354`. -/
def levelToString : Level → Text
  | .kTrace => "TRACE".toList
  | .kDebug => "DEBUG".toList
  | .kInfo => "INFO ".toList
  | .kWarn => "WARN ".toList
  | .kError => "ERROR".toList
  | .kFatal => "FATAL".toList

/-- `Options`, what the log has of them; `src/diag/diag.h:31`. -/
structure Options where
  maxLogBytes : ℕ := 4 * 1024 * 1024
  defaultLevel : Level := .kInfo
  fits : maxLogBytes ≤ 2 ^ 63 := by norm_num

/-- `kLogTailLines`; `src/diag/diag.cpp:40`. -/
def kLogTailLines : ℕ := 400

/-- What is logged and when, short enough for the line to be a `std::string`. -/
structure Message where
  timestamp : Text
  text : Text
  fits : timestamp.length + text.length + 8 < 2 ^ 63

/-- The line of a message; `src/diag/diag.cpp:286–288`. -/
def Message.line (message : Message) (level : Level) : Text :=
  message.timestamp ++ ' ' :: levelToString level ++ ' ' :: message.text

/-- What the calls of the file system do in a step, and how much a stream writes that fails. -/
structure Io where
  takes : Bool := true
  taken : ℕ := 0
  removes : Bool := true
  renames : Bool := true
  opens : Bool := true
  sized : Bool := true

/-- No call fails. -/
def Io.Fine (io : Io) : Prop :=
  io.takes = true ∧ io.removes = true ∧ io.renames = true ∧ io.opens = true ∧ io.sized = true

/-- `State`, with the two files; `src/diag/diag.cpp:42`. Not in the code are `lines`, what this
process has logged, and `recorded`, what the log was given by all of them: the lines logged while
the file was open. -/
structure State where
  initialised : Bool := false
  level : Level := .kInfo
  isOpen : Bool := false
  bad : Bool := false
  written : ℕ := 0
  tail : List Text := []
  log : Option Text := none
  previous : Option Text := none
  lines : List Text := []
  recorded : Text := []

/-- What the program does with the log, and that it ends without a word. -/
inductive Action where
  | init (level : Level) (io : Io)
  | log (level : Level) (message : Message) (io : Io)
  | setLevel (level : Level)
  | shutdown
  | crash

/-- The last elements of a list. -/
def last (n : ℕ) (lines : List Text) : List Text := lines.drop (lines.length - n)

namespace State

/-- What the stream is given, and flushed. -/
def write (text : Text) (io : Io) (s : State) : State :=
  let file := s.log.getD []
  if s.bad then s
  else if io.takes then { s with log := some (file ++ text) }
  else { s with log := some (file ++ text.take io.taken), bad := true }

section

variable (options : Options)

/-- `rotateIfNeededLocked`; `src/diag/diag.cpp:265`. -/
def rotateIfNeeded (io : Io) (s : State) : State :=
  if s.written < options.maxLogBytes then s
  else
    let previous := if io.removes then none else s.previous
    -- `rename` replaces a previous file that could not be removed
    let (log, previous) := if io.renames then (none, s.log) else (s.log, previous)
    if io.opens then
      { s with isOpen := true, bad := false, log := some [], previous, written := 0 }
    else { s with isOpen := false, log, previous, written := 0 }

/-- The part of `writeLine` that is about the file; `src/diag/diag.cpp:295–300`. -/
def record (line : Text) (io : Io) (s : State) : State :=
  if s.isOpen then
    let s := s.write (line ++ ['\n']) io
    rotateIfNeeded options io
      { s with
        written := (s.written + (line.length + 1)) % 2 ^ 64
        recorded := s.recorded ++ (line ++ ['\n']) }
  else s

/-- `writeLine`; `src/diag/diag.cpp:279`. -/
def writeLine (level : Level) (message : Message) (io : Io) (s : State) : State :=
  if level < s.level then s
  else
    let line := message.line level
    record options line io
      { s with tail := last kLogTailLines (s.tail ++ [line]), lines := s.lines ++ [line] }

/-- `init`, with the level that is in force; `src/diag/diag.cpp:379–411`. -/
def init (level : Level) (io : Io) (s : State) : State :=
  if s.initialised then s
  else
    let file := s.log.getD []
    if io.opens then
      { s with
        initialised := true, level, isOpen := true, bad := false, log := some file
        written := if io.sized then file.length else 2 ^ 64 - 1 }
    else { s with initialised := true, level, isOpen := false }

/-- `setLevel`; `src/diag/diag.cpp:484–492`. -/
def setLevel (level : Level) (s : State) : State := if s.level = level then s else { s with level }

/-- `shutdown`; `src/diag/diag.cpp:431`. -/
def shutdown (s : State) : State := { s with isOpen := false, initialised := false }

/-- `tail`; `src/diag/diag.cpp:504`. -/
def tailOf (lines : ℕ) (s : State) : List Text :=
  let wanted := if lines = 0 ∨ s.tail.length < lines then s.tail.length else lines
  last wanted s.tail

/-- One step. -/
def step (s : State) : Action → Option State
  | .init level io => some (s.init level io)
  | .log level message io => some (s.writeLine options level message io)
  | .setLevel level => some (s.setLevel level)
  | .shutdown => some s.shutdown
  | .crash => some { log := s.log, previous := s.previous, recorded := s.recorded }

end
end State

/-- The files as an earlier program left them, if one did. -/
def machine (options : Options) (previous log : Option Text) : Machine State Action where
  init s := s = { log, previous }
  step := State.step options

/-- In the step no call of the file system fails. -/
def Action.Fine : Action → Prop
  | .init _ io | .log _ _ io => io.Fine
  | .setLevel _ | .shutdown | .crash => True

/-! ## The files -/

/-- What holds of the files as long as no call has failed: `given` is all they were ever given. -/
structure Kept (options : Options) (given : Text) (s : State) : Prop where
  streams : s.isOpen = true → s.bad = false ∧ s.written = (s.log.getD []).length
  holds : ∃ older, given = older ++ (s.previous.getD [] ++ s.log.getD []) ∧
    (older = [] ∨ options.maxLogBytes ≤ (s.previous.getD []).length)
  small : (s.log.getD []).length < 2 ^ 63

section Files

variable {options : Options} {given : Text} {s : State} {io : Io}

/-- Only the stream and the files count. -/
theorem Kept.congr {t : State} (h : Kept options given s) (hopen : t.isOpen = s.isOpen)
    (hbad : t.bad = s.bad) (hwritten : t.written = s.written) (hlog : t.log = s.log)
    (hprevious : t.previous = s.previous) : Kept options given t := by
  constructor
  · rw [hopen, hbad, hwritten, hlog]
    exact h.streams
  · rw [hlog, hprevious]
    exact h.holds
  · rw [hlog]
    exact h.small

/-- A stream that is closed does not matter. -/
theorem Kept.closed {t : State} (h : Kept options given s) (hopen : t.isOpen = false)
    (hlog : t.log = s.log) (hprevious : t.previous = s.previous) : Kept options given t := by
  constructor
  · intro ht
    rw [hopen] at ht
    cases ht
  · rw [hlog, hprevious]
    exact h.holds
  · rw [hlog]
    exact h.small

/-- The files after a line, whether they are moved on or not. -/
theorem Kept.rotate {file : Text} (hfine : io.Fine) (hbad : s.bad = false)
    (hlog : s.log = some file) (hwritten : s.written = file.length)
    (hholds : ∃ older, given = older ++ (s.previous.getD [] ++ file) ∧
      (older = [] ∨ options.maxLogBytes ≤ (s.previous.getD []).length)) :
    Kept options given (s.rotateIfNeeded options io) := by
  obtain ⟨-, -, hrenames, hopens, -⟩ := hfine
  rw [State.rotateIfNeeded]
  by_cases hroom : s.written < options.maxLogBytes
  · rw [if_pos hroom]
    constructor
    · intro _
      rw [hlog]
      exact ⟨hbad, hwritten⟩
    · rw [hlog]
      exact hholds
    · rw [hlog]
      show file.length < _
      rw [← hwritten]
      exact lt_of_lt_of_le hroom options.fits
  · rw [if_neg hroom]
    simp only [hrenames, hopens, if_true]
    obtain ⟨older, hgiven, -⟩ := hholds
    constructor
    · exact fun _ ↦ ⟨rfl, rfl⟩
    · refine ⟨older ++ s.previous.getD [], ?_, .inr ?_⟩
      · rw [hgiven, hlog]
        simp
      · rw [hlog]
        show _ ≤ file.length
        rw [← hwritten]
        exact Nat.le_of_not_lt hroom
    · exact Nat.two_pow_pos 63

/-- A line is kept with the others. -/
theorem Kept.record {line : Text} (h : Kept options given s) (hfine : io.Fine)
    (hline : line.length + 1 < 2 ^ 63) (hopen : s.isOpen = true) :
    Kept options (given ++ (line ++ ['\n'])) (s.record options line io) := by
  obtain ⟨hbad, hwritten⟩ := h.streams hopen
  obtain ⟨older, hgiven, hold⟩ := h.holds
  have hsmall := h.small
  rw [State.record, if_pos hopen, State.write, hbad, if_neg Bool.false_ne_true, if_pos hfine.1]
  refine Kept.rotate hfine rfl rfl ?_ ?_
  · show (s.written + (line.length + 1)) % 2 ^ 64 = _
    rw [hwritten, Nat.mod_eq_of_lt (by omega)]
    simp
  · refine ⟨older, ?_, hold⟩
    rw [hgiven]
    simp

theorem length_levelToString (level : Level) : (levelToString level).length = 5 := by
  cases level <;> rfl

/-- The file is moved on without a word to memory. -/
theorem memory_rotateIfNeeded : (s.rotateIfNeeded options io).tail = s.tail ∧
    (s.rotateIfNeeded options io).lines = s.lines ∧
    (s.rotateIfNeeded options io).recorded = s.recorded := by
  rw [State.rotateIfNeeded]
  split
  · exact ⟨rfl, rfl, rfl⟩
  · dsimp only
    split <;> exact ⟨rfl, rfl, rfl⟩

/-- So is the stream written to. -/
theorem memory_write {text : Text} : (s.write text io).tail = s.tail ∧
    (s.write text io).lines = s.lines ∧ (s.write text io).recorded = s.recorded := by
  rw [State.write]
  split
  · exact ⟨rfl, rfl, rfl⟩
  · split <;> exact ⟨rfl, rfl, rfl⟩

/-- A message is kept with what was recorded before. -/
theorem Kept.writeLine {level : Level} {message : Message}
    (h : Kept options (given ++ s.recorded) s) (hfine : io.Fine) :
    Kept options (given ++ (s.writeLine options level message io).recorded)
      (s.writeLine options level message io) := by
  rw [State.writeLine]
  by_cases hlow : level < s.level
  · rw [if_pos hlow]
    exact h
  · rw [if_neg hlow]
    dsimp only
    generalize last kLogTailLines (s.tail ++ [message.line level]) = tail
    generalize s.lines ++ [message.line level] = lines
    have hsame : Kept options (given ++ s.recorded) { s with tail, lines } :=
      h.congr rfl rfl rfl rfl rfl
    by_cases hopen : s.isOpen = true
    · have hline : (message.line level).length + 1 < 2 ^ 63 := by
        have hfits := message.fits
        simp only [Message.line, List.length_append, List.length_cons, length_levelToString]
        omega
      have hrecord := hsame.record hfine hline hopen
      rw [List.append_assoc] at hrecord
      have hrecorded : (State.record options (message.line level) io
          { s with tail, lines }).recorded = s.recorded ++ (message.line level ++ ['\n']) := by
        rw [State.record, if_pos hopen, memory_rotateIfNeeded.2.2]
        exact congrArg (· ++ _) memory_write.2.2
      rw [hrecorded]
      exact hrecord
    · rw [State.record, if_neg hopen]
      exact hsame

/-- No step without a failing call loses what has to be kept. -/
theorem kept_step {t : State} {a : Action} (h : Kept options (given ++ s.recorded) s)
    (hfine : a.Fine) (ht : s.step options a = some t) :
    Kept options (given ++ t.recorded) t := by
  cases a with
  | init level io =>
    cases ht
    rw [State.init]
    by_cases hinitialised : s.initialised = true
    · rw [if_pos hinitialised]
      exact h
    · rw [if_neg hinitialised]
      obtain ⟨-, -, -, hopens, hsized⟩ := hfine
      simp only [hopens, hsized, if_true]
      constructor
      · exact fun _ ↦ ⟨rfl, rfl⟩
      · exact h.holds
      · exact h.small
  | log level message io =>
    cases ht
    exact h.writeLine hfine
  | setLevel level =>
    cases ht
    rw [State.setLevel]
    split
    · exact h
    · exact h.congr rfl rfl rfl rfl rfl
  | shutdown =>
    cases ht
    exact h.closed rfl rfl rfl
  | crash =>
    cases ht
    exact h.closed rfl rfl rfl

end Files

/-! ## The tail -/

section Tail

variable {options : Options} {s : State} {io : Io}

/-- The last elements of a list that grows. -/
theorem last_append (n : ℕ) (lines new : List Text) :
    last n (last n lines ++ new) = last n (lines ++ new) := by
  rw [last, last, last, List.length_append, List.length_append, List.length_drop]
  rw [← List.drop_append_of_le_length (Nat.sub_le _ _), List.drop_drop]
  congr 1
  omega

theorem length_last (n : ℕ) (lines : List Text) : (last n lines).length = min n lines.length := by
  rw [last, List.length_drop]
  omega

/-- All of a list that is short enough. -/
theorem last_of_length_le {n : ℕ} {lines : List Text} (h : lines.length ≤ n) :
    last n lines = lines := by
  rw [last, Nat.sub_eq_zero_of_le h, List.drop_zero]

/-- Of the last elements the last ones. -/
theorem last_last {m n : ℕ} (h : m ≤ n) (lines : List Text) :
    last m (last n lines) = last m lines := by
  rw [last, length_last, last, List.drop_drop, last]
  congr 1
  omega

theorem tail_record {line : Text} : (s.record options line io).tail = s.tail ∧
    (s.record options line io).lines = s.lines := by
  rw [State.record]
  split
  · rw [memory_rotateIfNeeded.1, memory_rotateIfNeeded.2.1]
    exact ⟨memory_write.1, memory_write.2.1⟩
  · exact ⟨rfl, rfl⟩

/-- A line is kept in memory whatever becomes of the file. -/
theorem tail_writeLine {level : Level} {message : Message}
    (h : s.tail = last kLogTailLines s.lines) :
    (s.writeLine options level message io).tail =
      last kLogTailLines (s.writeLine options level message io).lines := by
  rw [State.writeLine]
  split
  · exact h
  · dsimp only
    rw [tail_record.1, tail_record.2]
    rw [h, last_append]

/-- The lines kept in memory are the last ones of this process. -/
theorem tail_step {t : State} {a : Action} (h : s.tail = last kLogTailLines s.lines)
    (ht : s.step options a = some t) : t.tail = last kLogTailLines t.lines := by
  cases a with
  | init level io =>
    cases ht
    rw [State.init]
    split
    · exact h
    · split <;> exact h
  | log level message io =>
    cases ht
    exact tail_writeLine h
  | setLevel level =>
    cases ht
    rw [State.setLevel]
    split <;> exact h
  | shutdown =>
    cases ht
    exact h
  | crash =>
    cases ht
    exact (last_of_length_le (Nat.zero_le _)).symm

/-- What is asked for of them. -/
theorem tailOf_eq (h : s.tail = last kLogTailLines s.lines) (n : ℕ) :
    s.tailOf n = last (if n = 0 ∨ kLogTailLines < n then kLogTailLines else n) s.lines := by
  have hlength : s.tail.length = min kLogTailLines s.lines.length := by rw [h, length_last]
  rw [State.tailOf]
  by_cases hall : n = 0 ∨ s.tail.length < n
  · rw [if_pos hall, last_of_length_le le_rfl, h]
    by_cases hmany : n = 0 ∨ kLogTailLines < n
    · rw [if_pos hmany]
    · rw [if_neg hmany, last_of_length_le (by omega), last_of_length_le (by omega)]
  · rw [if_neg hall, if_neg (by omega), h]
    exact last_last (by omega) _

end Tail

/-! ## The log -/

section Runs

variable {options : Options} {s : State}

/-- Whoever logs, however often the log is moved on and whenever the process ends and starts again:
as long as no call of the file system fails, the two files hold the end of all the log was ever
given, and at least its last `maxLogBytes`, and the lines a process keeps in memory are the last
ones it logged, to the file or not. -/
theorem log_kept {previous log : Option Text} (hlog : (log.getD []).length < 2 ^ 63)
    (h : (machine options previous log).ReachableUnder (fun _ a ↦ a.Fine) s) :
    ∃ older, previous.getD [] ++ log.getD [] ++ s.recorded =
        older ++ (s.previous.getD [] ++ s.log.getD []) ∧
      (older = [] ∨ options.maxLogBytes ≤ (s.previous.getD [] ++ s.log.getD []).length) ∧
      ∀ n, s.tailOf n =
        last (if n = 0 ∨ kLogTailLines < n then kLogTailLines else n) s.lines := by
  have hkept : Kept options (previous.getD [] ++ log.getD [] ++ s.recorded) s := by
    apply h.invariant (I := fun s ↦ Kept options (previous.getD [] ++ log.getD [] ++ s.recorded) s)
    · rintro t rfl
      constructor
      · exact fun hopen ↦ absurd hopen Bool.false_ne_true
      · exact ⟨[], by simp, .inl rfl⟩
      · exact hlog
    · intro t a u hfine ht hu
      exact kept_step ht hfine hu
  have htail : s.tail = last kLogTailLines s.lines := by
    apply h.invariant (I := fun s ↦ s.tail = last kLogTailLines s.lines)
    · rintro t rfl
      exact (last_of_length_le (Nat.zero_le _)).symm
    · intro t a u _ ht hu
      exact tail_step ht hu
  obtain ⟨older, hgiven, hold⟩ := hkept.holds
  refine ⟨older, hgiven, hold.imp_right fun hlong ↦ ?_, tailOf_eq htail⟩
  rw [List.length_append]
  exact Nat.le_add_right_of_le hlong

/-- The program starts for the first time. A line is logged before there is a file, and then one
that fills it. -/
theorem log_kept_rotated :
    ∃ s, (machine { maxLogBytes := 8 } none none).ReachableUnder (fun _ a ↦ a.Fine) s ∧
      s.previous = some "t INFO  a\n".toList ∧ s.log = some [] ∧
      s.tailOf 0 = ["s WARN  b".toList, "t INFO  a".toList] ∧
      ∃ older, s.recorded = older ++ (s.previous.getD [] ++ s.log.getD []) := by
  let before : Message := { timestamp := ['s'], text := ['b'], fits := by decide }
  let after : Message := { timestamp := ['t'], text := ['a'], fits := by decide }
  let options : Options := { maxLogBytes := 8 }
  let start : State := {}
  let s := ((start.writeLine options .kWarn before {}).init .kInfo {}).writeLine options .kInfo
    after {}
  have hfine : ({} : Io).Fine := ⟨rfl, rfl, rfl, rfl, rfl⟩
  have h : (machine options none none).ReachableUnder (fun _ a ↦ a.Fine) s :=
    .step (.log .kInfo after {}) (.step (.init .kInfo {}) (.step (.log .kWarn before {})
      (.init rfl) hfine rfl) hfine rfl) hfine rfl
  obtain ⟨older, holder, -, htail⟩ := log_kept (by decide) h
  refine ⟨s, h, by decide +kernel, by decide +kernel, ?_, older, holder⟩
  rw [htail]
  decide +kernel

end Runs

end WebLinked.Diag.Log
