import Mathlib
import Octal.Proofs.Calculator
import Octal.Proofs.Diagnostic

/-!
# Batches one after another

A batch may be cut in two where a line ends: to run both parts, the second with the calculator that the first leaves,
is to run the whole (`Batch.run_append_at_line_end`). The lines of the whole are those of the parts
(`Bytes.inputLines_append`), and lines are run one by one (`Batch.runLines_append`). Where the reading of the second
part fails at a line that is too long, so does that of the whole.
-/

namespace Octal

/-! ### Lines -/

theorem Bytes.inputLines_append_newline (a b : Bytes) : (a ++ newline :: b).inputLines = a.lines ++ b.inputLines := by
  obtain ⟨line, more, hb⟩ := exists_lines b
  rw [inputLines, inputLines, lines_append_newline, hb, List.getLast?_append_cons]
  split
  · rw [List.dropLast_append_cons]
  · rfl

theorem Bytes.inputLines_append {a : Bytes} (ha : a = [] ∨ a.getLast? = some newline) (b : Bytes) :
    (a ++ b).inputLines = a.inputLines ++ b.inputLines := by
  rcases ha with rfl | ha
  · rfl
  · obtain ⟨a, rfl⟩ := List.getLast?_eq_some_iff.1 ha
    have hempty : Bytes.inputLines [] = [] := rfl
    rw [List.append_assoc, List.singleton_append, inputLines_append_newline, inputLines_append_newline, hempty,
      List.append_nil]

namespace Source

/-- Lines that fit are read before those of what follows. -/
theorem readLines_append {a : Bytes} (ha : a = [] ∨ a.getLast? = some newline)
    (hfit : ∀ line ∈ a.inputLines, line.length < lineLimit) (b : Bytes) :
    (complete (a ++ b)).readLines =
      ((complete a).readLines.1 ++ (complete b).readLines.1, (complete b).readLines.2) ∧
      (complete a).readLines.2 = none := by
  have htake : a.inputLines.takeWhile (fun line => line.length < lineLimit) = a.inputLines :=
    List.takeWhile_eq_self_iff.2 fun line hline => decide_eq_true (hfit line hline)
  constructor
  · simp only [readLines, complete, Bytes.inputLines_append ha]
    rw [List.takeWhile_append_of_pos fun line hline => decide_eq_true (hfit line hline), htake, List.length_append,
      List.length_append, List.map_append]
    exact congrArg _ (if_congr (Nat.add_lt_add_iff_left) rfl rfl)
  · simp [readLines, complete, htake]

end Source

/-! ### Runs -/

/-- One run after another. -/
def Run.followedBy (r r' : Run) : Run :=
  ⟨r.failed || r'.failed, r.output ++ r'.output, r.errors ++ r'.errors, r.log ++ r'.log, r'.next⟩

namespace Batch

theorem runLines_append (c : Calculator) (now : Instant) (lines more : List Bytes) :
    runLines c now (lines ++ more) =
      (runLines c now lines).followedBy (runLines (runLines c now lines).next now more) := by
  induction lines generalizing c with
  | nil => rfl
  | cons line lines ih =>
    rw [List.cons_append, runLines, runLines]
    simp only [ih]
    split
    · rfl
    · simp [Run.followedBy, Bool.or_assoc, List.append_assoc]

/-- What becomes of a run when the reading fails. -/
def endedBy (fault : Option Error) (r : Run) : Run :=
  match fault with
  | none => r
  | some cause =>
    { r with
      failed := true
      errors := Bytes.ofString ("Error reading input: " ++ cause.message ++ "\n") }

theorem run_eq_endedBy (c : Calculator) (now : Instant) (src : Source) :
    run c now src = endedBy src.readLines.2 (runLines c now src.readLines.1) := rfl

theorem endedBy_followedBy {r : Run} (h : r.errors = []) (r' : Run) (fault : Option Error) :
    endedBy fault (r.followedBy r') = r.followedBy (endedBy fault r') := by
  cases fault with
  | none => rfl
  | some cause => simp [endedBy, Run.followedBy, h]

/-- A run on a text that ends with a line, and then one on what follows it, make up the run on the whole. Nothing is
written to the errors but what the second run writes, and the whole fails if one of the two does. -/
theorem run_append_at_line_end (c : Calculator) (now : Instant) {a : Bytes} (ha : a = [] ∨ a.getLast? = some newline)
    (hfit : ∀ line ∈ a.inputLines, line.length < Source.lineLimit) (b : Bytes) :
    let first := run c now (.complete a)
    let second := run first.next now (.complete b)
    let whole := run c now (.complete (a ++ b))
    whole.output = first.output ++ second.output ∧ whole.errors = second.errors ∧
      whole.code = (if first.code = 1 ∨ second.code = 1 then 1 else 0) ∧ whole.next = second.next ∧
      whole.log = first.log ++ second.log := by
  intro first second whole
  obtain ⟨hread, hnone⟩ := Source.readLines_append ha hfit b
  have hfirst : first = runLines c now (Source.complete a).readLines.1 := by
    simp only [first, run_eq_endedBy, hnone, endedBy]
  have herrors : first.errors = [] := by
    rw [hfirst]
    exact (runLines_eq c now _).2.2.1
  have hwhole : whole = first.followedBy second := by
    simp only [whole, second, run_eq_endedBy]
    rw [hread, runLines_append, ← hfirst, endedBy_followedBy herrors]
  rw [hwhole]
  refine ⟨rfl, ?_, ?_, rfl, rfl⟩
  · show first.errors ++ second.errors = second.errors
    rw [herrors, List.nil_append]
  · show (if first.failed || second.failed then 1 else 0) = _
    cases hf : first.failed <;> cases hs : second.failed <;> simp [Run.code, hf, hs]

/-- The first part defines a function and fails, and the second calls the function. -/
theorem run_append_definition_and_call :
    let c : Calculator := ⟨.new .default, some (.memory .empty), none⟩
    let a := Bytes.ofString "DEF f()=7\r\ng()\n"
    let b := Bytes.ofString "# call it\nf()"
    a.getLast? = some newline ∧ (∀ line ∈ a.inputLines, line.length < Source.lineLimit) ∧
      (run c .zero (.complete (a ++ b))).output = (run c .zero (.complete a)).output ++ Bytes.ofString "f() = 7\n" ∧
      (run c .zero (.complete (a ++ b))).code = 1 := by
  intro c a b
  have ha : a.getLast? = some newline := by decide
  have hlines : a.inputLines = [Bytes.ofString "DEF f()=7\r", Bytes.ofString "g()"] := by decide
  have hfit : ∀ line ∈ a.inputLines, line.length < Source.lineLimit := by
    rw [hlines]
    decide
  have hread : (Source.complete a).readLines = ([Bytes.ofString "DEF f()=7", Bytes.ofString "g()"], none) := by decide
  have hread' : (Source.complete b).readLines = ([Bytes.ofString "# call it", Bytes.ofString "f()"], none) := by decide
  have hfailed : (run c .zero (.complete a)).failed = true := by
    rw [(run_eq c .zero _).1, hread]
    cbv
  have hcall : (run (run c .zero (.complete a)).next .zero (.complete b)).output = Bytes.ofString "f() = 7\n" := by
    rw [(run_eq _ .zero _).2.1, (run_eq c .zero _).2.2.2, Calculator.session_evaluateAll, hread, hread']
    cbv
  have happend := run_append_at_line_end c .zero (.inr ha) hfit b
  refine ⟨ha, hfit, happend.1.trans (congrArg _ hcall), ?_⟩
  exact happend.2.2.1.trans (if_pos (.inl (if_pos hfailed)))

end Batch

end Octal
