import BusScript.Proofs.Report.Grouping
import BusScript.Proofs.Text.Lines
import BusScript.Report.Layout
import Mathlib.Data.List.SplitBy

/-!
# The rows of a report

What a report without colours and remarks looks like as a whole: the entries are cut into the
longest runs of writes or reads in one notation, every run is cut into rows of four or eight values,
and any other entry has a line of its own. The report is written in one pass, which remembers no
more than the row that the next value may join.
-/

namespace BusScript.Report

/-! ### The layout -/

/-- Whether an entry has a value that is shown in a row. -/
def hasValue (entry : Instruction) : Bool :=
  entry.op == .write || entry.op == .read

/-- Whether the values of two adjacent entries belong to one run. -/
def continues (entry next : Instruction) : Bool :=
  hasValue entry && entry.op == next.op && entry.radix == next.radix

/-- The longest runs of writes or of reads in one notation. Any other entry is a run by itself. -/
def runs (entries : List Instruction) : List (List Instruction) :=
  entries.splitBy continues

/-- The rows of a run: the next values in order, so many in each row but the last. -/
def rowsOf (length : Nat) (run : List Instruction) : List (List Instruction) :=
  (List.range ((run.length + length - 1) / length)).map fun k =>
    (run.drop (length * k)).take length

/-- The display of a value, given what the session demands. A value that was read has no notation of
its own, and characters give theirs up for none. -/
def effective (demanded : Display) : Option Radix → Display
  | none => demanded
  | some .ascii => .ascii
  | some .hex => match demanded with | .auto | .ascii => .hex | other => other
  | some .dec => match demanded with | .auto | .ascii => .dec | other => other
  | some .bin => match demanded with | .auto | .ascii => .bin | other => other

/-- A text with the note of an entry behind it. -/
def withNote (entry : Instruction) (text : List Char) : List Char :=
  [' '].intercalate (text :: (entry.note.map String.toList).toList)

/-- A value of a row: the value itself, what came in beside it, and the note. -/
def valueText (settings : Settings) (entry : Instruction) : List Char :=
  let written := effective settings.display (some entry.radix)
  let value :=
    if entry.op = .read then number .plain (effective settings.display none) entry.bits entry.received
    else number .plain written entry.bits entry.sent
  let echo :=
    if entry.echoes then ['('] ++ number .plain written entry.bits entry.received ++ [')'] else []
  withNote entry (value ++ echo)

/-- The lines of some rows. The heading stands in front of the first of them and four blanks in
front of any other. -/
def rowLines (settings : Settings) (heading : List Char) :
    List (List Instruction) → List (List Char)
  | [] => []
  | row :: later =>
    (heading ++ [' '].intercalate (row.map (valueText settings))) ::
      rowLines settings "    ".toList later

/-- The line of an entry without a value. A start or a stop without a note has none. -/
def ownLine? (entry : Instruction) : Option (List Char) :=
  match entry.op with
  | .write | .read => none
  | .start | .stop | .startAlt | .stopAlt => entry.note.map String.toList
  | .delayUs => some ("Delay: ".toList ++ Nat.toDigits 10 entry.repeats ++ "us".toList)
  | .delayMs => some ("Delay: ".toList ++ Nat.toDigits 10 entry.repeats ++ "ms".toList)
  | .tickClock => some ("Tick clock: ".toList ++ Nat.toDigits 10 entry.repeats)
  | .clockHigh => some (withNote entry "Set CLK: 1".toList)
  | .clockLow => some (withNote entry "Set CLK: 0".toList)
  | .dataHigh => some (withNote entry "Set DAT: 1".toList)
  | .dataLow => some (withNote entry "Set DAT: 0".toList)
  | .readBit =>
    some (withNote entry ("Read DAT: ".toList ++ Nat.toDigits 10 entry.received.toNat))
  | .outputHigh => some ("IO".toList ++ Nat.toDigits 10 entry.pin ++ " set to OUTPUT: 1".toList)
  | .outputLow => some ("IO".toList ++ Nat.toDigits 10 entry.pin ++ " set to OUTPUT: 0".toList)
  | .input =>
    some ("IO".toList ++ Nat.toDigits 10 entry.pin ++ " set to INPUT: ".toList ++
      Nat.toDigits 10 entry.received.toNat)
  | .sample =>
    some ("Volts on IO".toList ++ Nat.toDigits 10 entry.pin ++ ": ".toList ++
      Nat.toDigits 10 (millivolts entry.received / 1000) ++ ['.'] ++
      Digits.fixed 10 3 (millivolts entry.received) ++ " V".toList)

/-- The lines of a run. A row holds four values if they are binary or shown as characters, and eight
otherwise. -/
def runLines (settings : Settings) : List Instruction → List (List Char)
  | [] => []
  | first :: later =>
    if hasValue first then
      rowLines settings (if first.op = .read then "RX: " else "TX: ").toList
        (rowsOf (if first.radix = .bin ∨ settings.display = .ascii then 4 else 8) (first :: later))
    else (first :: later).filterMap ownLine?

/-- The lines of a report on some entries. -/
def layout (settings : Settings) (entries : List Instruction) : List (List Char) :=
  Text.tidy ((runs entries).flatMap (runLines settings))

/-! ### Texts without line feeds -/

theorem newline_notMem_toDigits (n : Nat) : '\n' ∉ Nat.toDigits 10 n := by
  intro feed
  have digit := Nat.isDigit_of_mem_toDigits (by decide) (by decide) feed
  contradiction

theorem newline_notMem_fixed {base : Nat} (base_pos : 0 < base) (base_le : base ≤ 16)
    (count value : Nat) : '\n' ∉ Digits.fixed base count value := by
  have digit_ne : ∀ digit < 16, '\n' ≠ Digits.char digit := by decide
  induction count generalizing value with
  | zero => exact List.not_mem_nil
  | succ count induction =>
    rw [Digits.fixed, List.mem_append, not_or, List.mem_singleton]
    exact ⟨induction _, digit_ne _ (Nat.lt_of_lt_of_le (Nat.mod_lt _ base_pos) base_le)⟩

/-- Whether the escape sequences stay on one line. -/
structure UnbrokenPalette (p : Palette) : Prop where
  info : '\n' ∉ p.info
  notice : '\n' ∉ p.notice
  number : '\n' ∉ p.number
  reset : '\n' ∉ p.reset

theorem unbrokenPalette_ofColor (color : Bool) : UnbrokenPalette (.ofColor color) := by
  cases color <;> constructor <;> decide

theorem unbrokenPalette_plain : UnbrokenPalette .plain := unbrokenPalette_ofColor false

theorem UnbrokenPalette.highlight {p : Palette} (unbroken : UnbrokenPalette p) (isOn : Bool) :
    '\n' ∉ p.highlight isOn := by
  cases isOn with
  | false => exact unbroken.reset
  | true => exact unbroken.number

theorem newline_notMem_alternate {p : Palette} (palette : UnbrokenPalette p) {base : Nat}
    (base_pos : 0 < base) (base_le : base ≤ 16) (isOn : Bool) (size count value : Nat) :
    '\n' ∉ Digits.alternate p isOn (Digits.groups base size count value) := by
  have unbroken : ∀ group ∈ Digits.groups base size count value, '\n' ∉ group := by
    intro group member
    obtain ⟨i, -, rfl⟩ := List.mem_map.mp member
    exact newline_notMem_fixed base_pos base_le _ _
  generalize Digits.groups base size count value = groups at unbroken
  induction groups generalizing isOn with
  | nil => exact List.not_mem_nil
  | cons group later induction =>
    obtain ⟨first, unbroken⟩ := List.forall_mem_cons.mp unbroken
    rw [Digits.alternate, List.mem_append, List.mem_append, not_or, not_or]
    exact ⟨⟨palette.highlight isOn, first⟩, induction _ unbroken⟩

theorem notMem_quotedByte {c : Char} (control : c.toNat < 32) (word : UInt32) :
    c ∉ quotedByte word := by
  have visible : ∀ code < 127, 32 ≤ code → 32 ≤ (Char.ofNat code).toNat := by decide
  have shown : ∀ d ∈ quotedByte word, 32 ≤ d.toNat := by
    rw [quotedByte]
    split
    next printed =>
      have code_le := visible _ (Nat.lt_succ_of_le printed.2) printed.1
      simpa using code_le
    next => simp
  exact fun member => Nat.not_le.mpr control (shown c member)

theorem newline_notMem_number {p : Palette} (palette : UnbrokenPalette p) (display : Display)
    (bits : Nat) (value : UInt32) : '\n' ∉ number p display bits value := by
  have mark (n : Nat) : '\n' ∉ widthMark n := by
    rw [widthMark]
    split <;> simp [newline_notMem_toDigits]
  have hex (word : UInt32) : '\n' ∉ hexNumber p (shownWidth bits) word := by
    rw [hexNumber_eq p word (shownWidth_pos bits) (shownWidth_le bits)]
    simp only [List.mem_append, not_or]
    exact ⟨⟨by decide, newline_notMem_alternate palette (by decide) (by decide) _ _ _ _⟩,
      palette.reset⟩
  have bin (word : UInt32) : '\n' ∉ binNumber p (shownWidth bits) word := by
    rw [binNumber_eq p word (shownWidth_pos bits) (shownWidth_le bits)]
    simp only [List.mem_append, not_or]
    exact ⟨⟨by decide, newline_notMem_alternate palette (by decide) (by decide) _ _ _ _⟩,
      palette.reset⟩
  cases display with
  | auto | hex => simp [number, hex, mark]
  | dec => simp [number, newline_notMem_toDigits, mark]
  | bin => simp [number, bin, mark]
  | ascii => simp [number, notMem_quotedByte, hex, mark]

/-- Whether the note of an entry stays on one line. -/
def UnbrokenNote (entry : Instruction) : Prop :=
  ∀ note ∈ entry.note, '\n' ∉ note.toList

theorem newline_notMem_trailingNote {entry : Instruction} (unbroken : UnbrokenNote entry) :
    '\n' ∉ trailingNote entry := by
  rw [trailingNote]
  split
  next => exact List.not_mem_nil
  next note note_eq => simp [unbroken note note_eq]

theorem withNote_eq (entry : Instruction) (text : List Char) :
    withNote entry text = text ++ trailingNote entry := by
  rw [withNote, trailingNote]
  cases entry.note <;> simp [List.intercalate]

theorem display_eq_effective (demanded : Display) (isRead : Bool) (entry : Instruction) :
    entry.display demanded isRead =
      effective demanded (if isRead then none else some entry.radix) := by
  rw [Instruction.display]
  cases isRead <;> cases entry.radix <;> cases demanded <;> rfl

theorem newline_notMem_withNote {entry : Instruction} (unbroken : UnbrokenNote entry)
    {text : List Char} (text_unbroken : '\n' ∉ text) : '\n' ∉ withNote entry text := by
  rw [withNote_eq, List.mem_append, not_or]
  exact ⟨text_unbroken, newline_notMem_trailingNote unbroken⟩

theorem newline_notMem_valueText (settings : Settings) {entry : Instruction}
    (unbroken : UnbrokenNote entry) : '\n' ∉ valueText settings entry := by
  refine newline_notMem_withNote unbroken ?_
  split <;> split <;> simp [newline_notMem_number unbrokenPalette_plain]

theorem newline_notMem_ownLine {entry : Instruction} (unbroken : UnbrokenNote entry) :
    ∀ line ∈ ownLine? entry, '\n' ∉ line := by
  intro line line_eq
  rw [ownLine?, Option.mem_def] at line_eq
  split at line_eq
  case h_1 | h_2 => contradiction
  case h_3 | h_4 | h_5 | h_6 =>
    obtain ⟨text, text_eq, rfl⟩ := Option.map_eq_some_iff.mp line_eq
    exact unbroken text text_eq
  all_goals
    obtain rfl := Option.some.inj line_eq
    simp [newline_notMem_toDigits, newline_notMem_fixed, newline_notMem_withNote unbroken]

/-! ### The pass over the entries -/

/-- The text of entries of which the first may join a row. -/
def textFrom (settings : Settings) (p : Palette) : Option Row → List Instruction → List Char
  | _, [] => []
  | row, entry :: later =>
    (entryText settings p row entry).1 ++
      textFrom settings p (entryText settings p row entry).2 later

theorem rawText_eq_textFrom (settings : Settings) (p : Palette) (entries : List Instruction) :
    rawText settings p entries = textFrom settings p none entries := by
  have foldl_eq (state : Array (List Char) × Option Row) :
      (entries.foldl (fun state entry => (state.1.push (entryText settings p state.2 entry).1,
        (entryText settings p state.2 entry).2)) state).1.toList.flatten =
          state.1.toList.flatten ++ textFrom settings p state.2 entries := by
    induction entries generalizing state with
    | nil => exact (List.append_nil _).symm
    | cons entry later induction =>
      rw [List.foldl_cons, induction, textFrom, Array.toList_push, List.flatten_concat,
        List.append_assoc]
  exact foldl_eq (#[], none)

/-- Whether an entry joins a row. -/
def Row.Takes (row : Row) (entry : Instruction) : Prop :=
  hasValue entry = true ∧ row.op = entry.op ∧ row.radix = entry.radix

/-- The row that a value opens. -/
def Row.ofEntry (settings : Settings) (entry : Instruction) : Row where
  op := entry.op
  radix := entry.radix
  left := rowLength settings.display entry.radix

/-- The values of a run when so many are left until the row is broken. -/
def cells (settings : Settings) (full : Nat) : Nat → List Instruction → List Char
  | _, [] => []
  | left, entry :: later =>
    cell settings .plain entry ++
      if left = 1 then rowBreak ++ cells settings full full later
      else cells settings full (left - 1) later

theorem rowLength_pos (display : Display) (radix : Radix) : 0 < rowLength display radix := by
  rw [rowLength]
  split <;> decide

section Pass

variable {settings : Settings} {p : Palette} {entry : Instruction} {row : Row}

theorem remarkText_of_mild (mild : entry.severity = .none) : remarkText entry = [] :=
  if_pos mild

theorem entryText_of_hasValue (value : hasValue entry = true) (row : Option Row) :
    entryText settings p row entry =
      ((dataText settings p row entry).1 ++ remarkText entry,
        some (dataText settings p row entry).2) := by
  have is_data : entry.op = .write ∨ entry.op = .read := by simpa [hasValue] using value
  rw [entryText, if_pos is_data]

/-- One step: a value that joins a row. -/
theorem entryText_of_takes (takes : row.Takes entry) (left_pos : 1 ≤ row.left) :
    entryText settings p (some row) entry =
      if row.left = 1 then
        (cell settings p entry ++ rowBreak ++ remarkText entry,
          some { row with left := rowLength settings.display row.radix })
      else (cell settings p entry ++ remarkText entry, some { row with left := row.left - 1 }) := by
  obtain ⟨value, op_eq, radix_eq⟩ := takes
  obtain ⟨op, radix, left⟩ := row
  subst op_eq radix_eq
  replace left_pos : 1 ≤ left := left_pos
  rw [entryText_of_hasValue value, dataText]
  simp only [Option.filter_some, beq_self_eq_true, Bool.and_self, if_true, Option.isSome_some,
    Option.map_some, Option.getD_some, List.nil_append, Nat.sub_eq_zero_iff_le]
  by_cases last : left = 1
  · rw [if_pos last.le, if_pos last]
  · rw [if_neg (by omega), if_neg last]

/-- One step: a value that joins no row opens one. -/
theorem entryText_of_not_takes (value : hasValue entry = true) (row : Option Row)
    (apart : ∀ r ∈ row, ¬ r.Takes entry) :
    entryText settings p row entry =
      (rowHeading p (entry.op == .read) ++
          (entryText settings p (some (.ofEntry settings entry)) entry).1,
        (entryText settings p (some (.ofEntry settings entry)) entry).2) := by
  have nothing_joined :
      (row.filter fun r => r.op == entry.op && r.radix == entry.radix) = none := by
    rw [Option.filter_eq_none_iff]
    intro r r_eq joins
    rw [Bool.and_eq_true, beq_iff_eq, beq_iff_eq] at joins
    exact apart r r_eq ⟨value, joins.1, joins.2⟩
  rw [entryText_of_hasValue value, entryText_of_hasValue value, dataText, dataText, nothing_joined]
  simp only [Row.ofEntry, Option.filter_some, beq_self_eq_true, Bool.and_self, if_true,
    Option.isSome_some, Option.isSome_none, Option.map_some, Option.map_none, Option.getD_some,
    Option.getD_none, List.nil_append, Bool.false_eq_true, if_false]
  split
  · simp only [List.append_assoc]
  · rw [List.append_assoc]

/-- One step: an entry without a value closes the row. -/
theorem entryText_of_not_hasValue (plain : hasValue entry = false) (mild : entry.severity = .none)
    (row : Option Row) : entryText settings p row entry = (lineText p entry, none) := by
  have no_data : ¬ (entry.op = .write ∨ entry.op = .read) := by
    simpa [hasValue] using plain
  rw [entryText, if_neg no_data, remarkText_of_mild mild, List.append_nil]

/-- A run of values that join a row. -/
theorem textFrom_of_takes (settings : Settings) {run : List Instruction}
    (takes : ∀ entry ∈ run, row.Takes entry) (mild : ∀ entry ∈ run, entry.severity = .none)
    (left_pos : 1 ≤ row.left) (rest : List Instruction) :
    ∃ left, textFrom settings .plain (some row) (run ++ rest) =
      cells settings (rowLength settings.display row.radix) row.left run ++
        textFrom settings .plain (some { row with left := left }) rest := by
  induction run generalizing row with
  | nil => exact ⟨row.left, rfl⟩
  | cons entry later induction =>
    obtain ⟨first_takes, takes⟩ := List.forall_mem_cons.mp takes
    obtain ⟨first_mild, mild⟩ := List.forall_mem_cons.mp mild
    rw [List.cons_append, textFrom, entryText_of_takes first_takes left_pos, cells,
      remarkText_of_mild first_mild, List.append_nil, List.append_nil]
    by_cases last : row.left = 1
    · obtain ⟨left, later_eq⟩ :=
        @induction { row with left := rowLength settings.display row.radix } takes mild
          (rowLength_pos settings.display row.radix)
      refine ⟨left, ?_⟩
      rw [if_pos last, if_pos last, later_eq]
      simp only [List.append_assoc]
    · replace left_pos : 1 ≤ row.left - 1 := by omega
      obtain ⟨left, later_eq⟩ := @induction { row with left := row.left - 1 } takes mild left_pos
      refine ⟨left, ?_⟩
      rw [if_neg last, if_neg last, later_eq]
      simp only [List.append_assoc]

end Pass

/-- The text of a run. -/
def runText (settings : Settings) : List Instruction → List Char
  | [] => []
  | first :: later =>
    if hasValue first then
      rowHeading .plain (first.op == .read) ++
        cells settings (rowLength settings.display first.radix)
          (rowLength settings.display first.radix) (first :: later)
    else (first :: later).flatMap (lineText .plain)

theorem Row.Takes.of_continues {row : Row} {entry next : Instruction} (takes : row.Takes entry)
    (joins : continues entry next = true) : row.Takes next := by
  obtain ⟨value, op_eq, radix_eq⟩ := takes
  simp only [continues, Bool.and_eq_true, beq_iff_eq] at joins
  refine ⟨?_, op_eq.trans joins.1.2, radix_eq.trans joins.2⟩
  rw [hasValue, ← joins.1.2]
  exact value

theorem Row.Takes.continues_of_takes {row : Row} {entry next : Instruction}
    (takes : row.Takes entry) (next_takes : row.Takes next) : continues entry next = true := by
  obtain ⟨value, op_eq, radix_eq⟩ := takes
  obtain ⟨-, next_op_eq, next_radix_eq⟩ := next_takes
  rw [continues, value, ← op_eq, ← radix_eq, next_op_eq, next_radix_eq]
  simp

/-- A row that takes an entry takes the whole run behind it. -/
theorem Row.Takes.of_isChain {row : Row} {first : Instruction} {later : List Instruction}
    (takes : row.Takes first)
    (chain : (first :: later).IsChain fun entry next => continues entry next = true) :
    ∀ entry ∈ first :: later, row.Takes entry := by
  induction later generalizing first with
  | nil =>
    rintro entry member
    rw [List.mem_singleton.mp member]
    exact takes
  | cons next later induction =>
    rw [List.isChain_cons_cons] at chain
    exact List.forall_mem_cons.mpr ⟨takes, induction (takes.of_continues chain.1) chain.2⟩

theorem textFrom_of_not_takes {settings : Settings} {row : Row} {entries : List Instruction}
    (mild : ∀ entry ∈ entries, entry.severity = .none)
    (apart : ∀ entry ∈ entries.head?, ¬ row.Takes entry) :
    textFrom settings .plain (some row) entries = textFrom settings .plain none entries := by
  cases entries with
  | nil => rfl
  | cons entry later =>
    have first_mild := mild entry List.mem_cons_self
    have first_apart : ¬ row.Takes entry := apart entry rfl
    have entry_eq : entryText settings .plain (some row) entry =
        entryText settings .plain none entry := by
      cases value : hasValue entry with
      | true =>
        rw [entryText_of_not_takes value (some row) (by simpa using first_apart),
          entryText_of_not_takes value none (by simp)]
      | false =>
        rw [entryText_of_not_hasValue value first_mild, entryText_of_not_hasValue value first_mild]
    rw [textFrom, textFrom, entry_eq]

/-- A whole run, and what comes behind it. -/
theorem textFrom_run {settings : Settings} {run rest : List Instruction} (nonempty : run ≠ [])
    (chain : run.IsChain fun entry next => continues entry next = true)
    (mild : ∀ entry ∈ run ++ rest, entry.severity = .none)
    (apart : ∀ next ∈ rest.head?, continues (run.getLast nonempty) next = false) :
    textFrom settings .plain none (run ++ rest) =
      runText settings run ++ textFrom settings .plain none rest := by
  obtain ⟨run_mild, rest_mild⟩ := List.forall_mem_append.mp mild
  obtain ⟨first, later, rfl⟩ := List.exists_cons_of_ne_nil nonempty
  have first_mild := run_mild first List.mem_cons_self
  cases value : hasValue first with
  | true =>
    let row := Row.ofEntry settings first
    have takes : ∀ entry ∈ first :: later, row.Takes entry :=
      Row.Takes.of_isChain ⟨value, rfl, rfl⟩ chain
    have opens : textFrom settings .plain none (first :: later ++ rest) =
        rowHeading .plain (first.op == .read) ++
          textFrom settings .plain (some row) (first :: later ++ rest) := by
      rw [List.cons_append, textFrom, textFrom,
        entryText_of_not_takes value none (by simp), List.append_assoc]
    have left_pos : 1 ≤ row.left := rowLength_pos settings.display first.radix
    obtain ⟨left, run_eq⟩ := textFrom_of_takes settings takes run_mild left_pos rest
    have last_takes := takes _ (List.getLast_mem nonempty)
    have rest_apart : ∀ next ∈ rest.head?, ¬ Row.Takes { row with left := left } next := by
      intro next next_eq next_takes
      have joins : continues _ next = true := last_takes.continues_of_takes next_takes
      rw [apart next next_eq] at joins
      contradiction
    rw [opens, run_eq, textFrom_of_not_takes rest_mild rest_apart, runText, if_pos value,
      List.append_assoc]
    rfl
  | false =>
    have alone : later = [] := by
      cases later with
      | nil => rfl
      | cons next later =>
        have joins := (List.isChain_cons_cons.mp chain).1
        rw [continues, value] at joins
        contradiction
    subst alone
    rw [List.singleton_append, textFrom, entryText_of_not_hasValue value first_mild, runText, value]
    simp

theorem textFrom_flatten (settings : Settings) {groups : List (List Instruction)}
    (nonempty : [] ∉ groups)
    (chains : ∀ run ∈ groups, run.IsChain fun entry next => continues entry next = true)
    (apart : groups.IsChain fun run next =>
      ∃ (run_ne : run ≠ []) (next_ne : next ≠ []),
        continues (run.getLast run_ne) (next.head next_ne) = false)
    (mild : ∀ entry ∈ groups.flatten, entry.severity = .none) :
    textFrom settings .plain none groups.flatten = groups.flatMap (runText settings) := by
  induction groups with
  | nil => rfl
  | cons run groups induction =>
    rw [List.mem_cons, not_or] at nonempty
    obtain ⟨chain, chains⟩ := List.forall_mem_cons.mp chains
    rw [List.flatten_cons] at mild
    have run_ne : run ≠ [] := Ne.symm nonempty.1
    have run_apart :
        ∀ next ∈ groups.flatten.head?, continues (run.getLast run_ne) next = false := by
      intro next next_eq
      cases groups with
      | nil => contradiction
      | cons later groups =>
        obtain ⟨_, later_ne, joins⟩ := (List.isChain_cons_cons.mp apart).1
        rw [List.flatten_cons, List.head?_append_of_ne_nil _ later_ne,
          List.head?_eq_some_head later_ne] at next_eq
        obtain rfl := Option.some.inj next_eq
        exact joins
    rw [List.flatten_cons, List.flatMap_cons, textFrom_run run_ne chain mild run_apart,
      induction nonempty.2 chains apart.tail fun entry member =>
        mild entry (List.mem_append_right _ member)]

theorem flatten_runs (entries : List Instruction) : (runs entries).flatten = entries :=
  List.flatten_splitBy continues entries

/-- The report is written run by run. -/
theorem rawText_eq_flatMap_runText {settings : Settings} {entries : List Instruction}
    (mild : ∀ entry ∈ entries, entry.severity = .none) :
    rawText settings .plain entries = (runs entries).flatMap (runText settings) := by
  rw [← flatten_runs entries] at mild
  have text_eq := textFrom_flatten settings
    (List.nil_notMem_splitBy continues entries) (fun _ member => List.isChain_of_mem_splitBy member)
    (List.isChain_getLast_head_splitBy continues entries) mild
  rw [rawText_eq_textFrom, runs, ← text_eq, List.flatten_splitBy]

/-! ### The lines of a run -/

theorem rowsOf_nil {length : Nat} (length_pos : 0 < length) : rowsOf length [] = [] := by
  rw [rowsOf, List.length_nil, Nat.zero_add, Nat.div_eq_of_lt (Nat.sub_one_lt length_pos.ne')]
  rfl

/-- The first row has as many values as it can, and the others are those of what is left. -/
theorem rowsOf_of_ne_nil {length : Nat} (length_pos : 0 < length) {run : List Instruction}
    (nonempty : run ≠ []) :
    rowsOf length run = run.take length :: rowsOf length (run.drop length) := by
  have count_eq : (run.length + length - 1) / length =
      ((run.drop length).length + length - 1) / length + 1 := by
    have run_pos := List.length_pos_iff.mpr nonempty
    rw [List.length_drop]
    by_cases more : length ≤ run.length
    · rw [show run.length + length - 1 = run.length - length + length - 1 + length by omega,
        Nat.add_div_right _ length_pos]
    · rw [show run.length + length - 1 = run.length - 1 + length by omega,
        Nat.add_div_right _ length_pos, Nat.div_eq_of_lt (by omega),
        Nat.div_eq_of_lt (by omega)]
  rw [rowsOf, count_eq, List.range_succ_eq_map, List.map_cons, List.map_map, Nat.mul_zero,
    List.drop_zero, rowsOf]
  congr 1
  apply List.map_congr_left
  intro k _
  rw [Function.comp_apply, List.drop_drop, Nat.mul_succ, Nat.add_comm]

/-- No value is lost, put twice or moved. -/
theorem flatten_rowsOf {length : Nat} (length_pos : 0 < length) (run : List Instruction) :
    (rowsOf length run).flatten = run := by
  induction length_eq : run.length using Nat.strong_induction_on generalizing run with
  | _ n induction =>
    by_cases empty : run = []
    · rw [empty, rowsOf_nil length_pos, List.flatten_nil]
    · have run_pos := List.length_pos_iff.mpr empty
      have shorter : (run.drop length).length < n := by
        rw [List.length_drop]
        omega
      rw [rowsOf_of_ne_nil length_pos empty, List.flatten_cons, induction _ shorter _ rfl,
        List.take_append_drop]

/-- The values up to the next break, and what comes behind it. -/
theorem cells_eq (settings : Settings) (full : Nat) {left : Nat} (left_pos : 1 ≤ left)
    (run : List Instruction) :
    cells settings full left run = (run.take left).flatMap (cell settings .plain) ++
      if run.length < left then [] else rowBreak ++ cells settings full full (run.drop left) := by
  induction run generalizing left with
  | nil =>
    have short : ([] : List Instruction).length < left := left_pos
    rw [if_pos short, List.take_nil]
    rfl
  | cons entry later induction =>
    obtain ⟨left, rfl⟩ : ∃ n, left = n + 1 := ⟨left - 1, by omega⟩
    rw [cells, List.take_succ_cons, List.flatMap_cons, List.length_cons, List.drop_succ_cons,
      List.append_assoc]
    congr 1
    by_cases last : left = 0
    · subst last
      rfl
    · rw [if_neg (by omega), Nat.add_sub_cancel, induction (Nat.pos_of_ne_zero last)]
      simp only [Nat.add_lt_add_iff_right]

theorem cell_eq_valueText (settings : Settings) (entry : Instruction) :
    cell settings .plain entry = valueText settings entry ++ [' '] := by
  rw [valueText, withNote_eq, cell]
  simp only [display_eq_effective]
  by_cases is_read : entry.op = .read <;> simp [is_read]

/-- The values of a row are set apart by blanks, and a blank is behind the last of them. -/
theorem flatMap_cell_eq {settings : Settings} {row : List Instruction} (nonempty : row ≠ []) :
    row.flatMap (cell settings .plain) =
      [' '].intercalate (row.map (valueText settings)) ++ [' '] := by
  induction row with
  | nil => contradiction
  | cons entry later induction =>
    rw [List.flatMap_cons, cell_eq_valueText, List.map_cons]
    cases later with
    | nil =>
      rw [List.map_nil, List.intercalate_singleton]
      exact List.append_nil _
    | cons next later =>
      rw [induction (List.cons_ne_nil _ _), List.map_cons, List.intercalate_cons_cons]
      simp only [List.append_assoc]

theorem newline_notMem_row (settings : Settings) {row : List Instruction}
    (unbroken : ∀ entry ∈ row, UnbrokenNote entry) :
    '\n' ∉ [' '].intercalate (row.map (valueText settings)) := by
  have cells_unbroken : '\n' ∉ row.flatMap (cell settings .plain) := by
    simp only [List.mem_flatMap, not_exists, not_and]
    intro entry member
    have value := newline_notMem_valueText settings (unbroken entry member)
    simp [cell_eq_valueText, value]
  by_cases empty : row = []
  · subst empty
    exact List.not_mem_nil
  · rw [flatMap_cell_eq empty, List.mem_append, not_or] at cells_unbroken
    exact cells_unbroken.1

/-- Rows give their lines, and the blanks behind a row that was broken at the very end none. -/
theorem tidyLines_cells {settings : Settings} {full : Nat} (full_pos : 0 < full)
    {heading : List Char} (heading_unbroken : '\n' ∉ heading) {run : List Instruction}
    (unbroken : ∀ entry ∈ run, UnbrokenNote entry)
    (nonempty : run = [] → Text.tidy [heading] = []) :
    Text.tidyLines (heading ++ cells settings full full run) =
      Text.tidy (rowLines settings heading (rowsOf full run)) := by
  induction length_eq : run.length using Nat.strong_induction_on generalizing run heading with
  | _ n induction =>
    by_cases empty : run = []
    · subst empty
      rw [rowsOf_nil full_pos, cells, List.append_nil, Text.tidyLines_of_notMem heading_unbroken,
        nonempty rfl]
      rfl
    · let line := heading ++ [' '].intercalate ((run.take full).map (valueText settings))
      have row_ne : run.take full ≠ [] := by simp [empty, full_pos.ne']
      have row_eq : heading ++ (run.take full).flatMap (cell settings .plain) = line ++ [' '] := by
        rw [flatMap_cell_eq row_ne, List.append_assoc]
      have line_unbroken : '\n' ∉ line := by
        rw [List.mem_append, not_or]
        refine ⟨heading_unbroken, newline_notMem_row settings fun entry member => ?_⟩
        exact unbroken entry (List.mem_of_mem_take member)
      have line_eq : Text.tidyLines (line ++ [' ']) = Text.tidy [line] :=
        Text.tidyLines_append_blank line_unbroken (by decide) (by decide)
      rw [cells_eq settings full full_pos, ← List.append_assoc, row_eq,
        rowsOf_of_ne_nil full_pos empty, rowLines, Text.tidy_cons]
      by_cases short : run.length < full
      · rw [if_pos short, List.append_nil, line_eq, List.drop_eq_nil_of_le short.le,
          rowsOf_nil full_pos]
        exact (List.append_nil _).symm
      · have shorter : (run.drop full).length < n := by
          rw [List.length_drop]
          omega
        have blanks_unbroken : '\n' ∉ "    ".toList := by decide
        have rest_unbroken : ∀ entry ∈ run.drop full, UnbrokenNote entry :=
          fun entry member => unbroken entry (List.mem_of_mem_drop member)
        have later := induction _ shorter blanks_unbroken rest_unbroken (fun _ => by decide) rfl
        rw [if_neg short, ← later, ← line_eq]
        exact Text.tidyLines_append_newline (line ++ [' ']) _

theorem lineText_eq (entry : Instruction) :
    lineText .plain entry = ((ownLine? entry).map ('\n' :: ·)).getD [] := by
  have one : Nat.toDigits 10 1 = ['1'] := rfl
  rw [lineText, ownLine?]
  cases entry.op with
  | write | read => rfl
  | start | stop | startAlt | stopAlt => cases entry.note <;> rfl
  | clockHigh | clockLow | dataHigh | dataLow =>
    simp only [withNote_eq]
    rfl
  | delayUs | delayMs | tickClock | readBit | outputHigh | outputLow | input | sample =>
    simp [labelled, colored, outputLine, voltsLine, withNote_eq, Palette.plain, one]

theorem opensLine_lineText (entry : Instruction) : Text.OpensLine (lineText .plain entry) := by
  rw [lineText_eq]
  cases ownLine? entry with
  | none => rintro c ⟨⟩
  | some line => rintro c ⟨⟩; rfl

theorem tidyLines_lineText {entry : Instruction} (unbroken : UnbrokenNote entry) :
    Text.tidyLines (lineText .plain entry) = Text.tidy (ownLine? entry).toList := by
  rw [lineText_eq]
  cases line_eq : ownLine? entry with
  | none => rfl
  | some line =>
    rw [Option.map_some, Option.getD_some, Text.tidyLines_newline, Option.toList_some]
    apply Text.tidyLines_of_notMem
    exact newline_notMem_ownLine unbroken line line_eq

theorem rowHeading_eq (isRead : Bool) :
    rowHeading .plain isRead = '\n' :: (if isRead then "RX: " else "TX: ").toList := by
  cases isRead <;> rfl

theorem opensLine_runText (settings : Settings) (run : List Instruction) :
    Text.OpensLine (runText settings run) := by
  cases run with
  | nil => rintro c ⟨⟩
  | cons first later =>
    rw [runText]
    split
    · rw [rowHeading_eq]
      rintro c ⟨⟩
      rfl
    · exact .flatMap fun entry _ => opensLine_lineText entry

theorem tidyLines_runText {settings : Settings} {run : List Instruction}
    (unbroken : ∀ entry ∈ run, UnbrokenNote entry) :
    Text.tidyLines (runText settings run) = Text.tidy (runLines settings run) := by
  cases run with
  | nil => rfl
  | cons first later =>
    rw [runText, runLines]
    split
    · have heading_eq : (if (first.op == .read) = true then "RX: " else "TX: ") =
          if first.op = .read then "RX: " else "TX: " := by
        simp only [beq_iff_eq]
      rw [rowHeading_eq, List.cons_append, Text.tidyLines_newline, heading_eq]
      refine tidyLines_cells (rowLength_pos settings.display first.radix) ?_ unbroken ?_
      · split <;> decide
      · exact fun empty => absurd empty (List.cons_ne_nil first later)
    · rw [List.filterMap_eq_flatMap_toList]
      apply Text.tidyLines_flatMap
      · exact fun entry _ => opensLine_lineText entry
      · exact fun entry member => tidyLines_lineText (unbroken entry member)

/-- A report without colours, remarks and line feeds in notes has the lines of the longest runs of
values and of the other entries. No value is lost, put twice or moved. -/
theorem render_eq_layout {settings : Settings} {entries : List Instruction}
    (colorless : settings.color = false) (mild : ∀ entry ∈ entries, entry.severity = .none)
    (unbroken : ∀ entry ∈ entries, UnbrokenNote entry) :
    render settings entries = String.ofList (Text.unlines (layout settings entries)) ∧
      (∀ line ∈ layout settings entries, '\n' ∉ line) ∧
      (runs entries).flatten = entries ∧
      ∀ run ∈ runs entries, ∀ length, 0 < length → (rowsOf length run).flatten = run := by
  have plain : Palette.ofColor settings.color = .plain := by
    rw [colorless]
    rfl
  have lines_eq : Text.tidyLines (rawText settings .plain entries) = layout settings entries := by
    rw [rawText_eq_flatMap_runText mild]
    apply Text.tidyLines_flatMap
    · exact fun run _ => opensLine_runText settings run
    · intro run member
      apply tidyLines_runText
      intro entry inside
      apply unbroken
      rw [← flatten_runs entries]
      exact List.mem_flatten_of_mem member inside
  refine ⟨?_, fun line member => ?_, flatten_runs entries,
    fun run _ length length_pos => flatten_rowsOf length_pos run⟩
  · rw [render, reportLines, plain, lines_eq]
  · apply Text.notMem_of_mem_tidyLines
    rwa [lines_eq]

/-- Five nibbles in binary, the second with an echo, take two rows; a start without a note follows,
and a character. Five reads take one row, or two where they are shown as characters. -/
theorem render_nibbles_character_and_reads :
    let nibble (value : UInt32) : Instruction :=
      { op := .write, radix := .bin, bits := 4, sent := value }
    let nibbles := [nibble 1, { nibble 2 with received := 0xf, echoes := true }, nibble 3, nibble 4,
      nibble 5]
    let reads := List.replicate 4 { op := .read, received := 0x42 : Instruction }
    let entries := nibbles ++ [{ op := .start }, { op := .write, radix := .ascii, sent := 0x41 }] ++
      reads ++ [{ op := .read, received := 0x42, note := some "ACK" }]
    let written := "TX: 0b0001.4 0b0010.4(0b1111.4) 0b0011.4 0b0100.4\n    0b0101.4\nTX: 'A' 0x41\n"
    (∀ entry ∈ entries, entry.severity = .none) ∧ (∀ entry ∈ entries, UnbrokenNote entry) ∧
      render {} entries = written ++ "RX: 0x42 0x42 0x42 0x42 0x42 ACK" ∧
      render { display := .ascii } entries =
        written ++ "RX: 'B' 0x42 'B' 0x42 'B' 0x42 'B' 0x42\n    'B' 0x42 ACK" := by
  intro nibble nibbles reads entries written
  have mild : ∀ entry ∈ entries, entry.severity = .none := by decide
  have unbroken : ∀ entry ∈ entries, UnbrokenNote entry := by
    unfold UnbrokenNote
    decide
  have auto_eq : render {} entries = String.ofList (Text.unlines (layout {} entries)) :=
    (render_eq_layout rfl mild unbroken).1
  have ascii_eq : render { display := .ascii } entries =
      String.ofList (Text.unlines (layout { display := .ascii } entries)) :=
    (render_eq_layout rfl mild unbroken).1
  refine ⟨mild, unbroken, ?_, ?_⟩
  · rw [auto_eq]
    decide +kernel
  · rw [ascii_eq]
    decide +kernel

end BusScript.Report
