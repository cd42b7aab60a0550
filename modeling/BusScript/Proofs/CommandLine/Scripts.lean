import BusScript.Proofs.CommandLine.Input
import BusScript.Proofs.Session.Station

/-!
# Scripts as arguments and as lines

Scripts do the same as arguments and as lines of the standard input. The lines lack a carriage
return here and there and an empty line at the end, and neither makes a difference: a carriage
return is a separator, and an empty line asks for nothing. What is written is what a session answers
to the scripts one after the other.
-/

namespace BusScript

namespace Handled

variable {σ β : Type}

/-- What is written to the standard output about a line: its report, if it has one. -/
def shown (handled : Handled σ β) : String :=
  match handled.result with
  | .ok output => output.text ++ "\n"
  | .error _ => ""

/-- What is written to the standard error about a line: the reason why it is rejected, if it is. -/
def complaint (handled : Handled σ β) : String :=
  match handled.result with
  | .error (.rejected reason) => (LineError.rejected reason).message ++ "\n"
  | .error .nothingToDo | .ok _ => ""

end Handled

namespace CommandLine

/-! ### Arguments -/

theorem Request.ofArguments?_scripts (met : List OptionName) (o : Options) (scripts : List String) :
    ofArguments? met o (scripts.map .script) =
      some (.run { o with scripts := o.scripts ++ scripts }) := by
  induction scripts generalizing o with
  | nil => simp [ofArguments?]
  | cons script scripts induction =>
    rw [List.map_cons, ofArguments?, induction, List.append_assoc, List.singleton_append]

/-- Scripts behind arguments are added to those that the arguments hold. -/
theorem Request.ofArguments?_append_scripts {met : List OptionName} {before o : Options}
    {read : List Argument} (asked : ofArguments? met before read = some (.run o))
    (scripts : List String) :
    ofArguments? met before (read ++ scripts.map .script) =
      some (.run { o with scripts := o.scripts ++ scripts }) := by
  induction read generalizing met before with
  | nil =>
    obtain rfl : before = o := by simpa [ofArguments?] using asked
    exact ofArguments?_scripts met before scripts
  | cons argument read induction =>
    cases argument with
    | help => cases asked
    | script text => exact induction asked
    | option name value =>
      rw [ofArguments?] at asked
      rw [List.cons_append, ofArguments?]
      split at asked
      next => contradiction
      next fresh =>
        rw [if_neg fresh]
        cases applied : Argument.applyOption? name value before with
        | none =>
          rw [applied] at asked
          contradiction
        | some later =>
          rw [applied] at asked
          exact induction asked

/-- Who asks for help does not ask for a run. -/
theorem Request.help_notMem {met : List OptionName} {before o : Options} {read : List Argument}
    (asked : ofArguments? met before read = some (.run o)) : .help ∉ read := by
  induction read generalizing met before with
  | nil => exact List.not_mem_nil
  | cons argument read induction =>
    rw [List.mem_cons, not_or]
    cases argument with
    | help => cases asked
    | script text => exact ⟨by simp, induction asked⟩
    | option name value =>
      rw [ofArguments?] at asked
      split at asked
      next => contradiction
      next =>
        split at asked
        next => contradiction
        next => exact ⟨by simp, induction asked⟩

theorem Argument.readAll?_append_scripts {arguments : List String} {read : List Argument}
    (read_eq : readAll? arguments = some read) (no_help : .help ∉ read)
    (open_ended : "--" ∉ arguments) (scripts : List String) :
    readAll? (arguments ++ "--" :: scripts) = some (read ++ scripts.map .script) := by
  have go_on {first : Argument} {rest : List String} {read : List Argument}
      (read_eq : (readAll? rest).map (first :: ·) = some read) (no_help : .help ∉ read)
      (open_ended : "--" ∉ rest)
      (induction : ∀ {later}, readAll? rest = some later → .help ∉ later → "--" ∉ rest →
        readAll? (rest ++ "--" :: scripts) = some (later ++ scripts.map .script)) :
      (readAll? (rest ++ "--" :: scripts)).map (first :: ·) =
        some (read ++ scripts.map .script) := by
    obtain ⟨later, later_eq, rfl⟩ := Option.map_eq_some_iff.mp read_eq
    rw [List.mem_cons, not_or] at no_help
    rw [induction later_eq no_help.2 open_ended]
    rfl
  fun_induction readAll? arguments generalizing read
  case case1 =>
    obtain rfl := Option.some.inj read_eq
    rfl
  case case2 argument rest two_hyphens =>
    have is_open : argument = "--" := String.toList_inj.mp two_hyphens
    exact absurd (is_open ▸ List.mem_cons_self) open_ended
  case case3 | case12 =>
    obtain rfl := Option.some.inj read_eq
    exact absurd List.mem_cons_self no_help
  case case5 argument rest body some_body argument_eq other_than_help name value found takes
      induction =>
    rw [List.mem_cons, not_or] at open_ended
    rw [List.cons_append, readAll?]
    simp only [argument_eq, found, takes, if_neg other_than_help]
    exact go_on read_eq no_help open_ended.2 induction
  case case9 argument body some_body argument_eq other_than_help name found takes value rest
      no_hyphen induction =>
    rw [List.mem_cons, not_or, List.mem_cons, not_or] at open_ended
    rw [List.cons_append, List.cons_append, readAll?]
    simp only [argument_eq, found, takes, if_neg other_than_help, if_neg no_hyphen]
    exact go_on read_eq no_help open_ended.2.2 induction
  case case10 argument rest body some_body argument_eq other_than_help name found takes induction =>
    rw [List.mem_cons, not_or] at open_ended
    rw [List.cons_append, readAll?]
    simp only [argument_eq, found, takes, if_neg other_than_help]
    exact go_on read_eq no_help open_ended.2 induction
  case case11 argument rest argument_eq induction =>
    rw [List.mem_cons, not_or] at open_ended
    rw [List.cons_append, readAll?]
    simp only [argument_eq]
    exact go_on read_eq no_help open_ended.2 induction
  case case14 argument rest no_open no_long no_hyphen no_short no_option induction =>
    rw [List.mem_cons, not_or] at open_ended
    rw [List.cons_append, readAll?]
    split
    next two_hyphens => exact absurd two_hyphens no_open
    next argument_eq => exact absurd argument_eq (no_long _)
    next argument_eq => exact absurd argument_eq no_hyphen
    next argument_eq => exact absurd argument_eq (no_short _)
    next argument_eq => exact absurd argument_eq (no_option _)
    next => exact go_on read_eq no_help open_ended.2 induction
  all_goals contradiction

/-- Arguments and scripts behind two hyphens ask for what the arguments ask for, and those scripts.
-/
theorem Request.parse?_append_scripts {arguments : List String} {o : Options}
    (asked : parse? arguments = some (.run o)) (open_ended : "--" ∉ arguments)
    (scripts : List String) :
    parse? (arguments ++ "--" :: scripts) =
      some (.run { o with scripts := o.scripts ++ scripts }) := by
  obtain ⟨read, read_eq, asked⟩ := Option.bind_eq_some_iff.mp asked
  rw [parse?, Argument.readAll?_append_scripts read_eq (help_notMem asked) open_ended scripts,
    Option.bind_some]
  exact ofArguments?_append_scripts asked scripts

/-! ### Lines -/

namespace Reply

/-- What is written about lines that were handled one after the other. -/
def ofHandled {σ β : Type} (handled : List (Handled σ β)) : Reply where
  out := String.join (handled.map Handled.shown)
  err := String.join (handled.map Handled.complaint)

theorem ofHandled_cons {σ β : Type} (first : Handled σ β) (later : List (Handled σ β)) :
    ofHandled (first :: later) =
      ({ out := first.shown, err := first.complaint } : Reply) ++ ofHandled later := by
  rw [ofHandled, List.map_cons, List.map_cons, String.join_cons, String.join_cons]
  rfl

theorem append_assoc (a b c : Reply) : a ++ b ++ c = a ++ (b ++ c) := by
  show (⟨a.out ++ b.out ++ c.out, a.err ++ b.err ++ c.err⟩ : Reply) = _
  rw [String.append_assoc, String.append_assoc]
  rfl

theorem empty_append (a : Reply) : ({} : Reply) ++ a = a := by
  show (⟨"" ++ a.out, "" ++ a.err⟩ : Reply) = _
  rw [String.empty_append, String.empty_append]

theorem append_empty (a : Reply) : a ++ ({} : Reply) = a := by
  show (⟨a.out ++ "", a.err ++ ""⟩ : Reply) = _
  rw [String.append_empty, String.append_empty]

end Reply

namespace Console

/-- The console behind a line, with what is written about the line put behind what was written
before. -/
def advance (state : Reply × Console) (line : String) : Reply × Console :=
  (state.1 ++ (state.2.submit line).1, (state.2.submit line).2)

theorem submitAll_eq_foldl (lines : List String) (c : Console) :
    c.submitAll lines = lines.foldl advance ({}, c) := rfl

theorem foldl_advance (written : Reply) (lines : List String) (c : Console) :
    lines.foldl advance (written, c) =
      (written ++ (c.submitAll lines).1, (c.submitAll lines).2) := by
  induction lines generalizing written c with
  | nil => exact congrArg (·, c) (Reply.append_empty written).symm
  | cons line lines induction =>
    rw [submitAll_eq_foldl, List.foldl_cons, List.foldl_cons, advance, advance, induction,
      induction, Reply.empty_append, Reply.append_assoc]

theorem submitAll_cons (line : String) (later : List String) (c : Console) :
    c.submitAll (line :: later) =
      ((c.submit line).1 ++ ((c.submit line).2.submitAll later).1,
        ((c.submit line).2.submitAll later).2) := by
  rw [submitAll_eq_foldl, List.foldl_cons, advance, foldl_advance, Reply.empty_append]

theorem submit_congr {line other : String}
    (same : ∀ settings role,
      compileText settings role line.toList = compileText settings role other.toList)
    (c : Console) : c.submit line = c.submit other := by
  have compile_eq : ((Cursor.ofString line).compile c.session.settings c.session.pins.role).1.result =
      ((Cursor.ofString other).compile c.session.settings c.session.pins.role).1.result := same _ _
  obtain ⟨result_eq, session_eq, driver_eq, board_eq⟩ :=
    Session.run_congr compile_eq c.driver c.board
  rw [submit, submit, Session.runLine, Session.runLine, result_eq, session_eq, driver_eq, board_eq]

/-- A carriage return at the end of a line makes no difference. -/
theorem submit_withoutReturn (line : String) (c : Console) :
    c.submit (String.ofList (withoutReturn line.toList)) = c.submit line := by
  refine submit_congr (fun settings role => ?_) c
  rw [String.toList_ofList, withoutReturn]
  split
  next last =>
    obtain ⟨front, front_eq⟩ := List.getLast?_eq_some_iff.mp last
    rw [front_eq, List.dropLast_concat]
    exact (compileText_append_separator (by decide)).symm
  next => rfl

theorem submit_empty (c : Console) : c.submit "" = ({}, c) := by
  have compiled : ((Cursor.ofString "").compile c.session.settings c.session.pins.role).1.result =
      .ok [] := compileFrom_of_nil rfl
  have refused : c.session.Refused c.driver c.board .nothingToDo
      (c.session.runLine "" c.driver c.board) := by
    rcases c.session.refused_or_ran (.ofString "") c.driver c.board with
      ⟨reason, rejected, -⟩ | ⟨-, refused⟩ | ⟨p, some_instruction, other, -⟩
    · rw [compiled] at rejected
      contradiction
    · exact refused
    · rw [compiled] at other
      exact absurd (Except.ok.inj other).symm some_instruction
  rw [submit, refused.result_eq, refused.session_eq, refused.driver_eq, refused.board_eq,
    SimulatedBus.preflight_fst]
  rfl

/-- What is read of scripts with line feeds between them is handled as the scripts are. -/
theorem submitAll_inputLines (scripts : List String) (c : Console) :
    c.submitAll ((inputLines (scripts.map String.toList)).map String.ofList) =
      c.submitAll scripts := by
  induction scripts generalizing c with
  | nil => rfl
  | cons script scripts induction =>
    cases scripts with
    | nil =>
      by_cases blank : script = ""
      · subst blank
        rw [submitAll_cons, submit_empty]
        exact (congrArg (·, c) (Reply.empty_append _)).symm
      · have kept : inputLines [script.toList] = [script.toList] := by
          rw [inputLines, List.filter_eq_self.mpr]
          · rfl
          · intro last member
            obtain rfl := List.mem_singleton.mp member
            simpa using blank
        rw [List.map_singleton, kept, List.map_singleton, String.ofList_toList]
    | cons next scripts =>
      rw [List.map_cons, List.map_cons, inputLines_cons_cons, List.map_cons, submitAll_cons,
        submit_withoutReturn, ← List.map_cons, induction]
      exact (submitAll_cons script (next :: scripts) c).symm

/-- The session of a console, with the bus and the board that it runs on. -/
def station (c : Console) : Station SimulatedBus SimulatedBoard where
  session := c.session
  driver := c.driver
  board := c.board

/-- What is written about lines is what the session answers to them, one after the other. -/
theorem reply_submitAll (lines : List String) (c : Console) :
    (c.submitAll lines).1 = .ofHandled (c.station.submitAll (lines.map Cursor.ofString)) := by
  induction lines generalizing c with
  | nil => rfl
  | cons line lines induction =>
    let handled := c.station.submit (.ofString line)
    have first_eq : (c.submit line).1 = { out := handled.shown, err := handled.complaint } := by
      show reply handled.result = _
      rw [Handled.shown, Handled.complaint]
      cases handled.result with
      | ok output => rfl
      | error error => cases error <;> rfl
    have later_eq : (c.submit line).2.station = handled.station := rfl
    rw [submitAll_cons, first_eq, induction, later_eq, List.map_cons, Station.submitAll_cons,
      Reply.ofHandled_cons]

end Console

/-- What is read of scripts that stand on the standard input with line feeds between them. -/
theorem decodeLines_intercalate {scripts : List String} (some_script : scripts ≠ [])
    (single_lines : ∀ script ∈ scripts, '\n' ∉ script.toList) :
    decodeLines (byteLines ("\n".intercalate scripts).toUTF8.data.toList) =
      ((inputLines (scripts.map String.toList)).map String.ofList, false) := by
  have some_text : scripts.map String.toList ≠ [] := by simpa using some_script
  have apart : ∀ text ∈ scripts.map String.toList, '\n' ∉ text := List.forall_mem_map.mpr single_lines
  have line_feed : "\n".toList = ['\n'] := rfl
  rw [← encode_toList, String.toList_intercalate, line_feed, byteLines_encode some_text apart,
    decodeLines_map_encode]

/-- How the program ends when nothing is wrong with its input. -/
def Options.outcome (o : Options) (state : Reply × Console) : Outcome where
  reply := state.1
  delayedUs := state.2.board.delayedUs
  summary := if o.stats then state.2.session.tally.summary else []

section Run

variable {o : Options} {s : Session} {scripts : List String}

/-- The console that a session with the options runs on. -/
def Options.console (o : Options) (s : Session) : Console where
  session := s
  driver := o.bus
  board := .ofCount o.settings.pins

theorem Console.ofOptions_eq (opened : Session.ofSettings o.settings = .ok s)
    (scripts : List String) : ofOptions { o with scripts := scripts } = .ok (o.console s) := by
  show (Session.ofSettings o.settings).map _ = _
  rw [opened]
  rfl

theorem Options.run_scripts (opened : Session.ofSettings o.settings = .ok s)
    (some_script : scripts ≠ []) (input : List UInt8) :
    Options.run { o with scripts := scripts } input =
      o.outcome ((o.console s).submitAll scripts) := by
  have given : scripts.isEmpty = false := by simpa using some_script
  rw [Options.run, Console.ofOptions_eq opened]
  simp only [given]
  rfl

theorem Options.run_lines (opened : Session.ofSettings o.settings = .ok s)
    (some_script : scripts ≠ []) (single_lines : ∀ script ∈ scripts, '\n' ∉ script.toList) :
    Options.run { o with scripts := [] } ("\n".intercalate scripts).toUTF8.data.toList =
      o.outcome ((o.console s).submitAll scripts) := by
  rw [Options.run, Console.ofOptions_eq opened]
  simp only [List.isEmpty_nil, if_true, decodeLines_intercalate some_script single_lines,
    Console.submitAll_inputLines]
  rfl

/-- Scripts do the same as arguments and as lines of the standard input, whatever the options are,
and every rejected line is reported on the standard error. -/
theorem run_scripts_eq_run_lines {arguments bare : List String}
    (given : Request.parse? arguments = some (.run { o with scripts := scripts }))
    (missing : Request.parse? bare = some (.run { o with scripts := [] }))
    (opened : Session.ofSettings o.settings = .ok s) (some_script : scripts ≠ [])
    (single_lines : ∀ script ∈ scripts, '\n' ∉ script.toList) (input : List UInt8) :
    let start : Station SimulatedBus SimulatedBoard :=
      { session := s, driver := o.bus, board := .ofCount o.settings.pins }
    let handled := start.submitAll (scripts.map Cursor.ofString)
    run bare ("\n".intercalate scripts).toUTF8.data.toList = run arguments input ∧
      (run arguments input).code = 0 ∧
      (run arguments input).reply.out = String.join (handled.map Handled.shown) ∧
      (run arguments input).reply.err = String.join (handled.map Handled.complaint) := by
  intro start handled
  have lines_eq : run bare ("\n".intercalate scripts).toUTF8.data.toList =
      o.outcome ((o.console s).submitAll scripts) := by
    rw [run, missing]
    exact Options.run_lines opened some_script single_lines
  have scripts_eq : run arguments input = o.outcome ((o.console s).submitAll scripts) := by
    rw [run, given]
    exact Options.run_scripts opened some_script input
  have reply_eq : ((o.console s).submitAll scripts).1 = .ofHandled handled :=
    Console.reply_submitAll scripts (o.console s)
  refine ⟨lines_eq.trans scripts_eq.symm, ?_⟩
  rw [scripts_eq, Options.outcome, reply_eq]
  exact ⟨rfl, rfl, rfl⟩

end Run

/-- On a bus without hardware: a read with a carriage return behind it, a symbol that stands for
nothing, and an empty line at the end. -/
theorem run_read_and_unknown_symbol :
    let scripts := ["r\r", "q", ""]
    let arguments := ["--mode", "spi", "--"] ++ scripts
    let bare := ["--mode", "spi"]
    (∀ script ∈ scripts, '\n' ∉ script.toList) ∧
      run bare "r\r\nq\n".toUTF8.data.toList = run arguments [] ∧
      (run arguments []).code = 0 ∧ (run arguments []).reply.out = "RX: 0xFF\n" ∧
      (run arguments []).reply.err = "syntax compile error: unknown syntax 'q' at position 1\n" := by
  intro scripts arguments bare
  let o : Options := { mode := .spi }
  let s : Session :=
    { settings := {}, valid := Settings.fault?_eq_none_iff.mp rfl, pins := .free 8, tally := ∅ }
  have missing : Request.parse? bare = some (.run { o with scripts := [] }) := rfl
  have given : Request.parse? arguments = some (.run { o with scripts := scripts }) :=
    Request.parse?_append_scripts missing (by decide) scripts
  have opened : Session.ofSettings o.settings = .ok s := rfl
  have single_lines : ∀ script ∈ scripts, '\n' ∉ script.toList := by decide
  obtain ⟨lines_eq, code_eq, out_eq, err_eq⟩ :=
    run_scripts_eq_run_lines given missing opened (by decide) single_lines []
  refine ⟨single_lines, lines_eq, code_eq, out_eq.trans ?_, err_eq.trans ?_⟩
  · decide +kernel
  · decide +kernel

end CommandLine

end BusScript
