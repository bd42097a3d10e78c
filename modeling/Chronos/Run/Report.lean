import Mathlib.Data.List.DropRight
import Chronos.Lib.Printf
import Chronos.Run.CommandLine
import Chronos.Run.Results

/-!
# The text of the results

What `print_results` writes in each output format, and what can be read back from the
file that a batch leaves: its last lines are the results of the runs, once each and in
order, whatever the group processes have written in front of them.
-/

namespace Chronos.Run

open Chronos.Lib

/-! ## Formats -/

/-- The numbers of a line for a spreadsheet. -/
def excelFields : List Conversion :=
  [.number, .text ",=".toList, .number, .text "/".toList, .number, .text ",=".toList, .number,
    .text "/".toList, .number, .text ",=".toList, .number]

/-- What follows the scheduler in a line of the log. -/
def logFields : List Conversion :=
  [.text ": Tasks: ".toList, .number, .text "/".toList, .number, .text ", Utility: ".toList,
    .number, .text "/".toList, .number, .text ", Aborted: ".toList, .number,
    .text ", Tardiness ".toList, .number]

def verboseFields : List Conversion :=
  [.text "set start_time: ".toList, .number, .text " sec ".toList, .number,
    .text " nsec\nset end_time: ".toList, .number, .text " sec ".toList, .number,
    .text " nsec\ntotal tasks: ".toList, .number, .text ",total deadlines met: ".toList, .number,
    .text ",total possible utility: ".toList, .number, .text ",total utility accrued: ".toList,
    .number, .text ",total tasks aborted: ".toList, .number]

/-- The arguments of a line for a spreadsheet. -/
def excelArgs (o : Options) (s : SysStats) : List Int :=
  [o.cpuUsage, s.metRelease, s.totalRelease, s.metUtil, s.totalUtil, s.maxTardiness]

/-- The arguments of a line of the log, after the usage. -/
def logArgs (s : SysStats) : List Int :=
  [s.metRelease, s.totalRelease, s.metUtil, s.totalUtil, s.abortCount, s.maxTardiness]

/-- `%f` of a quotient, which is not a number, or not finite, when the divisor is 0. -/
def writeRatio (notFinite : Int → List Char) (a b : Int) : List Char :=
  if b = 0 then notFinite a else fixed 6 (fl (a / b))

/-- The line for a spreadsheet; a name that is not found is left out. -/
def excelLine (o : Options) (s : SysStats) (schedName : Option (List Char)) : List Char :=
  schedName.elim [] (· ++ [',']) ++ (printf excelFields (excelArgs o s) ++ ['\n'])

/-- The line of the log. -/
def logLine (o : Options) (s : SysStats) (schedName : Option (List Char)) : List Char :=
  fixed 2 (fl (o.cpuUsage / 100)) ++ schedName.elim [] ('/' :: ·) ++
    (printf logFields (logArgs s) ++ ['\n'])

/-- `print_results`, where `notFinite` writes what `%f` writes for `a / 0`. There is no
result when the name of the scheduler is looked for behind the table, or the start time is
read through a null pointer. -/
def printResults (notFinite : Int → List Char) (format : OutputFormat) (o : Options)
    (globalStart : Option Timespec) (s : SysStats) : Option (List Char) :=
  match format with
  | .verbose => globalStart.map fun start =>
    printf verboseFields [start.sec, start.nsec, start.sec + o.runTime, start.nsec,
      s.totalRelease, s.metRelease, s.totalUtil, s.metUtil, s.abortCount] ++ ['\n']
  | .excel => (getSchedName (.ofInt 32 o.scheduler)).map (excelLine o s)
  | .gnuplot => some
    (fixed 6 (fl (o.cpuUsage / 100)) ++ ' ' :: writeRatio notFinite s.metRelease s.totalRelease ++
      ' ' :: writeRatio notFinite s.metUtil s.totalUtil ++ ' ' :: numeral s.maxTardiness ++ ['\n'])
  | .log => (getSchedName (.ofInt 32 o.scheduler)).map (logLine o s)

/-! ## Reading a line -/

/-- The scheduler of the options is that of an entry of the table, with any flags. -/
def Uses (o : Options) (a : Algorithm) : Prop :=
  a ∈ algorithms ∧ BitVec.ofInt 32 o.scheduler &&& ~~~SCHED_FLAGS_MASK = a.mask

instance (o : Options) (a : Algorithm) : Decidable (Uses o a) :=
  inferInstanceAs (Decidable (_ ∧ _))

section Line

variable {notFinite : Int → List Char} {o : Options} {a : Algorithm} {start : Option Timespec}
  {s : SysStats}

theorem Uses.getSchedName (h : Uses o a) :
    getSchedName (.ofInt 32 o.scheduler) = some (some a.name) := by
  rw [getSchedName_eq, h.2, (find?_algorithms h.1).2.1]
  rfl

end Line

/-! ## The output file -/

variable {S : Setup}

/-- The warnings and the first `n` results. -/
def Setup.report (S : Setup) (n : Nat) : List Line :=
  S.warnings.map .warning ++ (List.range n).map .result

/-- **What stands in the buffers and in the file, line by line.** -/
structure TextInv (s : State S) : Prop where
  stdout : s.stdout = S.report s.printed
  group : ∀ l, s.proc l ≠ .absent → s.proc l ≠ .exited → s.procStdout l = S.report s.run
  warnings : ∀ w, .warning w ∈ s.file → w ∈ S.warnings
  last : s.parent = .exited → ∃ front, s.file = front ++ s.stdout

section File

variable {s s' : State S}

theorem Setup.report_succ (S : Setup) (n : Nat) : S.report (n + 1) = S.report n ++ [.result n] := by
  simp [Setup.report, List.range_succ]

theorem Setup.mem_warnings_of_mem_report {S : Setup} {n : Nat} {w : String}
    (h : .warning w ∈ S.report n) : w ∈ S.warnings := by
  simpa [Setup.report] using h

theorem TextInv.start : TextInv (State.start S) where
  stdout := by simp [State.start, Setup.report, State.printed]
  group _ h := absurd rfl h
  warnings _ h := by cases h
  last h := by cases h

theorem TextInv.stdout_step (h : TextInv s) (hs : Step S s s') :
    s'.stdout = S.report s'.printed := by
  have ho := h.stdout
  cases hs with
  | print hpc =>
    rw [State.printed, hpc] at ho
    rw [ho]
    exact (S.report_succ _).symm
  | _ =>
    first
    | exact ho
    | simp_all [State.printed, State.setProc, State.startRun]

theorem TextInv.group_step (h : TextInv s) (hs : Step S s s') :
    ∀ l, s'.proc l ≠ .absent → s'.proc l ≠ .exited → s'.procStdout l = S.report s'.run := by
  intro l
  have hg := h.group l
  have ho := h.stdout
  cases hs <;> simp only [State.setProc, State.setThread, State.startRun, Function.update_apply] <;>
    grind [State.printed]

theorem TextInv.warnings_step (h : TextInv s) (hs : Step S s s') :
    ∀ w, .warning w ∈ s'.file → w ∈ S.warnings := by
  intro w
  have hw := h.warnings w
  cases hs with
  | finish =>
    intro hmem
    rcases List.mem_append.mp hmem with hmem | hmem
    · exact hw hmem
    · exact S.mem_warnings_of_mem_report (h.stdout ▸ hmem)
  | exit l hpc =>
    intro hmem
    rcases List.mem_append.mp hmem with hmem | hmem
    · exact hw hmem
    · have hg := h.group l (by rw [hpc]; nofun) (by rw [hpc]; nofun)
      exact S.mem_warnings_of_mem_report (hg ▸ hmem)
  | _ => exact hw

/-- After its end the parent leaves the file alone, and so does everybody else. -/
theorem TextInv.last_step (h : TextInv s) (hi : Inv s) (hs : Step S s s')
    (hx : s'.parent = .exited) : ∃ front, s'.file = front ++ s'.stdout := by
  cases hs with
  | finish => exact ⟨_, rfl⟩
  | exit l hpc =>
    have hl := hi.isLeader (l := l) (by rw [hpc]; nofun)
    have hexited := hi.joined l hl (by rw [show s.parent = .exited from hx]; trivial)
    rw [hpc] at hexited
    cases hexited
  | _ => first | exact h.last hx | cases hx

theorem TextInv.of_reachable (h : Reachable S s) : TextInv s := by
  induction h with
  | refl => exact .start
  | tail hpath hs ih =>
    exact ⟨ih.stdout_step hs, ih.group_step hs, ih.warnings_step hs,
      ih.last_step (Inv.of_reachable hpath) hs⟩

end File

/-- The text of a line, where `printed` are the statistics of the runs. The parent has no
start time when it prints them. -/
def Line.text (notFinite : Int → List Char) (format : OutputFormat) (o : Options)
    (printed : List SysStats) : Line → Option (List Char)
  | .warning w => some ("Warning: ".toList ++ w.toList ++ ['\n'])
  | .result run => printed[run]?.bind (printResults notFinite format (o.inRun run) none)

section Text

variable {notFinite : Int → List Char} {format : OutputFormat} {o : Options}
  {printed : List SysStats}

end Text

end Chronos.Run
