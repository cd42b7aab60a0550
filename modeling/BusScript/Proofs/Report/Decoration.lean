import BusScript.Proofs.Report.Echo
import BusScript.Proofs.Report.Numbers
import BusScript.Proofs.Text.Escapes

/-!
# Colours are decoration

A report with colours is the report without them, decorated with escape sequences. Every sequence
touches a character of its line that is no blank, so that the same blanks and the same lines are
dropped from both, and deleting the sequences from the one gives the other.
-/

namespace BusScript.Report

open Text

/-- Whether the messages of an entry hold no escape sequence. -/
structure Unescaped (entry : Instruction) : Prop where
  note : ∀ note ∈ entry.note, '\x1b' ∉ note.toList
  remark : ∀ remark ∈ entry.remark, '\x1b' ∉ remark.toList

/-! ### Digits -/

theorem isPrinted_of_isDigit {c : Char} (digit : c.isDigit = true) : IsPrinted c := by
  refine ⟨isBlank_of_isDigit digit, ?_⟩
  rintro rfl
  contradiction

theorem isPrinted_of_mem_toDigits {n : Nat} {c : Char} (member : c ∈ Nat.toDigits 10 n) :
    IsPrinted c :=
  isPrinted_of_isDigit (Nat.isDigit_of_mem_toDigits (by decide) (by decide) member)

theorem isPrinted_of_mem_fixed {base count value : Nat} {c : Char} (base_pos : 0 < base)
    (base_le : base ≤ 16) (member : c ∈ Digits.fixed base count value) : IsPrinted c := by
  refine ⟨isBlank_of_mem_fixed base_pos base_le member, ?_⟩
  rintro rfl
  exact absurd (Digits.mem_of_mem_fixed base_pos base_le member) (by decide)

theorem escape_notMem_of_isPrinted {text : List Char} (printed : ∀ c ∈ text, IsPrinted c) :
    '\x1b' ∉ text :=
  fun member => (printed _ member).no_escape rfl

theorem escape_notMem_widthMark (bits : Nat) : '\x1b' ∉ widthMark bits := by
  have digits : '\x1b' ∉ Nat.toDigits 10 bits :=
    escape_notMem_of_isPrinted fun _ => isPrinted_of_mem_toDigits
  rw [widthMark]
  split <;> simp [digits]

/-! ### Sequences around a text -/

/-- A text between two sequences that begins and ends with characters that are no blanks. -/
theorem decorates_between (opens closes : Escape) {text : List Char} {first last : Char}
    (head_eq : text.head? = some first) (last_eq : text.getLast? = some last)
    (no_escape : '\x1b' ∉ text) (starts : isBlank first = false) (ends : isBlank last = false) :
    Decorates (opens.text ++ text ++ closes.text) text := by
  obtain ⟨later, rfl⟩ := List.head?_eq_some_iff.mp head_eq
  have opened := (Decorates.refl no_escape).escape_append opens starts
  obtain ⟨most, split_eq⟩ := List.getLast?_eq_some_iff.mp last_eq
  rw [split_eq] at opened ⊢
  exact opened.append_escape closes ends

theorem decorates_between_of_isPrinted (opens closes : Escape) {text : List Char}
    (some_text : text ≠ []) (printed : ∀ c ∈ text, IsPrinted c) :
    Decorates (opens.text ++ text ++ closes.text) text :=
  decorates_between opens closes (List.head?_eq_some_head some_text)
    (List.getLast?_eq_some_getLast some_text) (escape_notMem_of_isPrinted printed)
    (printed _ (List.head_mem some_text)).visible (printed _ (List.getLast_mem some_text)).visible

theorem decorates_feed : Decorates ['\n'] ['\n'] :=
  .refl (by decide)

theorem decorates_blank : Decorates [' '] [' '] :=
  .refl (by decide)

theorem decorates_colored (n : Nat) : Decorates (colored .terminal n) (colored .plain n) := by
  have printed : ∀ c ∈ Nat.toDigits 10 n, IsPrinted c := fun _ => isPrinted_of_mem_toDigits
  have between := decorates_between_of_isPrinted .number .reset Nat.toDigits_ne_nil printed
  simpa [colored, Palette.plain, Escape.text] using between

theorem decorates_labelled {label : String} {first : Char}
    (head_eq : label.toList.head? = some first) (no_escape : '\x1b' ∉ label.toList)
    (starts : isBlank first = false) (n : Nat) :
    Decorates (labelled .terminal label n) (labelled .plain label n) := by
  have title_eq : (label.toList ++ [':']).head? = some first := by
    rw [List.head?_append, head_eq, Option.some_or]
  have title := decorates_between .notice .reset title_eq List.getLast?_concat
    (by simp [no_escape]) starts rfl
  have whole := ((decorates_feed.append title).append decorates_blank).append (decorates_colored n)
  simpa [labelled, Palette.plain, Escape.text] using whole

/-! ### Numbers -/

theorem ne_nil_of_mem_groups {base size count value : Nat} (size_pos : 0 < size) {group : List Char}
    (member : group ∈ Digits.groups base size count value) : group ≠ [] := by
  obtain ⟨first, later⟩ := @Digits.length_of_mem_groups base size count value size_pos
  apply List.ne_nil_of_length_pos
  cases groups_eq : Digits.groups base size count value with
  | nil => simp [groups_eq] at member
  | cons head tail =>
    rw [groups_eq] at member first later
    rcases List.mem_cons.mp member with rfl | behind
    · exact (first _ rfl).1
    · exact (later group behind).symm ▸ size_pos

theorem decorates_alternate {groups : List (List Char)} (isOn : Bool)
    (some_digits : ∀ group ∈ groups, group ≠ [])
    (printed : ∀ group ∈ groups, ∀ c ∈ group, IsPrinted c) :
    Decorates (Digits.alternate .terminal isOn groups) groups.flatten := by
  induction groups generalizing isOn with
  | nil => exact .nil
  | cons group groups induction =>
    obtain ⟨some_digit, more_digits⟩ := List.forall_mem_cons.mp some_digits
    obtain ⟨first, more_printed⟩ := List.forall_mem_cons.mp printed
    have plain : Decorates group group := .refl (escape_notMem_of_isPrinted first)
    obtain ⟨c, digits, rfl⟩ := List.exists_cons_of_ne_nil some_digit
    have opened := plain.escape_append (if isOn then .number else .reset)
      (first c List.mem_cons_self).visible
    have whole := opened.append (induction (!isOn) more_digits more_printed)
    rw [Digits.alternate, List.flatten_cons]
    cases isOn <;> exact whole

theorem decorates_groups {base size : Nat} (base_pos : 0 < base) (base_le : base ≤ 16)
    (size_pos : 0 < size) (count value : Nat) {letter : Char} (is_printed : IsPrinted letter) :
    Decorates
      (['0', letter] ++ Digits.alternate .terminal true (Digits.groups base size count value) ++
        Palette.terminal.reset)
      (['0', letter] ++ Digits.alternate .plain true (Digits.groups base size count value) ++
        Palette.plain.reset) := by
  have digits_printed (group : List Char) (inside : group ∈ Digits.groups base size count value)
      (c : Char) (member : c ∈ group) : IsPrinted c := by
    obtain ⟨i, -, rfl⟩ := List.mem_map.mp inside
    exact isPrinted_of_mem_fixed base_pos base_le member
  have lead : Decorates ['0', letter] ['0', letter] := by
    refine .refl ?_
    simp [is_printed.no_escape.symm]
  have digits := lead.append (decorates_alternate true (fun _ => ne_nil_of_mem_groups size_pos)
    digits_printed)
  obtain ⟨most, last, last_eq, visible⟩ : EndsVisibly
      (['0', letter] ++ (Digits.groups base size count value).flatten) := by
    refine .append_of_forall ⟨['0'], letter, rfl, is_printed.visible⟩ fun c member => ?_
    obtain ⟨group, inside, member⟩ := List.mem_flatten.mp member
    exact (digits_printed group inside c member).visible
  rw [Digits.alternate_plain, show Palette.plain.reset = [] from rfl, List.append_nil]
  rw [last_eq] at digits ⊢
  exact digits.append_escape .reset visible

theorem decorates_number (display : Display) (bits : Nat) (value : UInt32) :
    Decorates (number .terminal display bits value) (number .plain display bits value) := by
  have width_pos := shownWidth_pos bits
  have width_le := shownWidth_le bits
  have hex (word : UInt32) : Decorates (hexNumber .terminal (shownWidth bits) word)
      (hexNumber .plain (shownWidth bits) word) := by
    rw [hexNumber_eq _ word width_pos width_le, hexNumber_eq _ word width_pos width_le]
    exact decorates_groups (by decide) (by decide) (by decide) _ _ ⟨rfl, by decide⟩
  have bin (word : UInt32) : Decorates (binNumber .terminal (shownWidth bits) word)
      (binNumber .plain (shownWidth bits) word) := by
    rw [binNumber_eq _ word width_pos width_le, binNumber_eq _ word width_pos width_le]
    exact decorates_groups (by decide) (by decide) (by decide) _ _ ⟨rfl, by decide⟩
  have dec (n : Nat) : Decorates (Nat.toDigits 10 n) (Nat.toDigits 10 n) :=
    .refl (escape_notMem_of_isPrinted fun _ => isPrinted_of_mem_toDigits)
  have mark (bits : Nat) : Decorates (widthMark bits) (widthMark bits) :=
    .refl (escape_notMem_widthMark bits)
  have quoted (word : UInt32) : Decorates (quotedByte word) (quotedByte word) :=
    .refl (notMem_quotedByte (by decide) word)
  cases display with
  | auto | hex => exact (hex _).append (mark _)
  | dec => exact (dec _).append (mark _)
  | bin => exact (bin _).append (mark _)
  | ascii => exact ((quoted _).append (hex _)).append (mark _)

/-! ### Entries -/

theorem decorates_rowHeading (isRead : Bool) :
    Decorates (rowHeading .terminal isRead) (rowHeading .plain isRead) := by
  have heading : Decorates
      (Escape.info.text ++ (if isRead then "RX:" else "TX:").toList ++ Escape.reset.text)
      (if isRead then "RX:" else "TX:").toList := by
    cases isRead with
    | true => exact decorates_between .info .reset rfl rfl (by decide) rfl rfl
    | false => exact decorates_between .info .reset rfl rfl (by decide) rfl rfl
  have whole := (decorates_feed.append heading).append decorates_blank
  simpa [rowHeading, Palette.plain, Escape.text] using whole

section Entry

variable {entry : Instruction}

theorem decorates_trailingNote (unescaped : Unescaped entry) :
    Decorates (trailingNote entry) (trailingNote entry) := by
  refine .refl ?_
  rw [trailingNote]
  split
  next => exact List.not_mem_nil
  next note note_eq => simp [unescaped.note note note_eq]

theorem decorates_remarkText (unescaped : Unescaped entry) :
    Decorates (remarkText entry) (remarkText entry) := by
  refine .refl ?_
  rw [remarkText]
  split
  next => exact List.not_mem_nil
  next =>
    cases remark_eq : entry.remark with
    | none => simp
    | some remark => simp [unescaped.remark remark remark_eq]

theorem decorates_cell (settings : Settings) (unescaped : Unescaped entry) :
    Decorates (cell settings .terminal entry) (cell settings .plain entry) := by
  have opening : Decorates ['('] ['('] := .refl (by decide)
  have closing : Decorates [')'] [')'] := .refl (by decide)
  have echo (display : Display) : Decorates
      (if entry.echoes then ['('] ++ number .terminal display entry.bits entry.received ++ [')']
        else [])
      (if entry.echoes then ['('] ++ number .plain display entry.bits entry.received ++ [')']
        else []) := by
    split
    next => exact (opening.append (decorates_number display _ _)).append closing
    next => exact .nil
  have note := decorates_trailingNote unescaped
  exact (((decorates_number _ _ _).append (echo _)).append note).append decorates_blank

/-- A value is shown decorated, and the next may join the same row. -/
theorem decorates_dataText (settings : Settings) (row : Option Row) (unescaped : Unescaped entry) :
    Decorates (dataText settings .terminal row entry).1 (dataText settings .plain row entry).1 ∧
      (dataText settings .terminal row entry).2 = (dataText settings .plain row entry).2 := by
  have heading (isJoined : Bool) : Decorates
      (if isJoined then [] else rowHeading .terminal (entry.op == .read))
      (if isJoined then [] else rowHeading .plain (entry.op == .read)) := by
    cases isJoined with
    | true => exact .nil
    | false => exact decorates_rowHeading _
  have shown (isJoined : Bool) :=
    (heading isJoined).append (decorates_cell settings unescaped)
  have broken : Decorates rowBreak rowBreak := .refl (by decide)
  rw [dataText, dataText]
  dsimp only
  split
  next => exact ⟨(shown _).append broken, rfl⟩
  next => exact ⟨shown _, rfl⟩

theorem decorates_outputLine (level pin : Nat) :
    Decorates (outputLine .terminal level pin) (outputLine .plain level pin) := by
  have opening : Decorates "\nIO".toList "\nIO".toList := .refl (by decide)
  have middle : Decorates " set to OUTPUT: ".toList " set to OUTPUT: ".toList := .refl (by decide)
  exact ((opening.append (decorates_colored pin)).append middle).append (decorates_colored level)

theorem decorates_inputLine (pin level : Nat) : Decorates
    ("\nIO".toList ++ colored .terminal pin ++ " set to INPUT: ".toList ++ colored .terminal level)
    ("\nIO".toList ++ colored .plain pin ++ " set to INPUT: ".toList ++ colored .plain level) := by
  have opening : Decorates "\nIO".toList "\nIO".toList := .refl (by decide)
  have middle : Decorates " set to INPUT: ".toList " set to INPUT: ".toList := .refl (by decide)
  exact ((opening.append (decorates_colored pin)).append middle).append (decorates_colored level)

theorem decorates_voltsLine (entry : Instruction) :
    Decorates (voltsLine .terminal entry) (voltsLine .plain entry) := by
  let mv := millivolts entry.received
  have pin : '\x1b' ∉ Nat.toDigits 10 entry.pin :=
    escape_notMem_of_isPrinted fun _ => isPrinted_of_mem_toDigits
  have title : Decorates
      (Escape.info.text ++ ("Volts on IO".toList ++ Nat.toDigits 10 entry.pin ++ [':']) ++
        Escape.reset.text)
      ("Volts on IO".toList ++ Nat.toDigits 10 entry.pin ++ [':']) :=
    decorates_between .info .reset rfl List.getLast?_concat (by simp [pin]) rfl rfl
  have printed :
      ∀ c ∈ Nat.toDigits 10 (mv / 1000) ++ ['.'] ++ Digits.fixed 10 3 mv, IsPrinted c := by
    simp only [List.mem_append, List.mem_singleton]
    rintro c ((whole | rfl) | thousandth)
    · exact isPrinted_of_mem_toDigits whole
    · exact ⟨rfl, by decide⟩
    · exact isPrinted_of_mem_fixed (by decide) (by decide) thousandth
  have volts := decorates_between_of_isPrinted .number .reset (by simp) printed
  have unit : Decorates " V".toList " V".toList := .refl (by decide)
  have whole :=
    (((decorates_feed.append title).append decorates_blank).append volts).append unit
  simpa [voltsLine, Palette.plain, Escape.text] using whole

theorem decorates_lineText (unescaped : Unescaped entry) :
    Decorates (lineText .terminal entry) (lineText .plain entry) := by
  have delay (n : Nat) : Decorates (labelled .terminal "Delay" n) (labelled .plain "Delay" n) :=
    decorates_labelled rfl (by decide) rfl n
  have tick (n : Nat) :
      Decorates (labelled .terminal "Tick clock" n) (labelled .plain "Tick clock" n) :=
    decorates_labelled rfl (by decide) rfl n
  have clock (n : Nat) : Decorates (labelled .terminal "Set CLK" n) (labelled .plain "Set CLK" n) :=
    decorates_labelled rfl (by decide) rfl n
  have data (n : Nat) : Decorates (labelled .terminal "Set DAT" n) (labelled .plain "Set DAT" n) :=
    decorates_labelled rfl (by decide) rfl n
  have bit (n : Nat) : Decorates (labelled .terminal "Read DAT" n) (labelled .plain "Read DAT" n) :=
    decorates_labelled rfl (by decide) rfl n
  have micro : Decorates "us".toList "us".toList := .refl (by decide)
  have milli : Decorates "ms".toList "ms".toList := .refl (by decide)
  have note := decorates_trailingNote unescaped
  rw [lineText, lineText]
  cases entry.op with
  | write | read => exact .nil
  | start | stop | startAlt | stopAlt =>
    cases note_eq : entry.note with
    | none => exact .nil
    | some text => exact .refl (by simp [unescaped.note text note_eq])
  | delayUs => exact (delay _).append micro
  | delayMs => exact (delay _).append milli
  | tickClock => exact tick _
  | clockHigh | clockLow => exact (clock _).append note
  | dataHigh | dataLow => exact (data _).append note
  | readBit => exact (bit _).append note
  | outputHigh | outputLow => exact decorates_outputLine _ _
  | input => exact decorates_inputLine _ _
  | sample => exact decorates_voltsLine entry

/-- One step: what is written for an entry is decorated, and what it leaves of a row is the same. -/
theorem decorates_entryText (settings : Settings) (row : Option Row) (unescaped : Unescaped entry) :
    Decorates (entryText settings .terminal row entry).1 (entryText settings .plain row entry).1 ∧
      (entryText settings .terminal row entry).2 = (entryText settings .plain row entry).2 := by
  obtain ⟨shown, row_eq⟩ := decorates_dataText settings row unescaped
  have remark := decorates_remarkText unescaped
  rw [entryText, entryText]
  split
  next => exact ⟨shown.append remark, congrArg some row_eq⟩
  next => exact ⟨(decorates_lineText unescaped).append remark, rfl⟩

end Entry

/-! ### Reports -/

theorem decorates_textFrom (settings : Settings) (row : Option Row) {entries : List Instruction}
    (unescaped : ∀ entry ∈ entries, Unescaped entry) :
    Decorates (textFrom settings .terminal row entries) (textFrom settings .plain row entries) := by
  induction entries generalizing row with
  | nil => exact .nil
  | cons entry later induction =>
    obtain ⟨first, unescaped⟩ := List.forall_mem_cons.mp unescaped
    obtain ⟨shown, row_eq⟩ := decorates_entryText settings row first
    rw [textFrom, textFrom, row_eq]
    exact shown.append (induction _ unescaped)

theorem decorates_render (settings : Settings) {entries : List Instruction}
    (unescaped : ∀ entry ∈ entries, Unescaped entry) :
    Decorates (render { settings with color := true } entries).toList
      (render { settings with color := false } entries).toList := by
  have raw := decorates_textFrom settings none unescaped
  rw [← rawText_eq_textFrom, ← rawText_eq_textFrom] at raw
  rw [render, render, String.toList_ofList, String.toList_ofList]
  exact decorates_unlines raw.tidyLines

/-- Deleting the escape sequences from a report with colours gives the report without them. -/
theorem erase_render_color (settings : Settings) {entries : List Instruction}
    (unescaped : ∀ entry ∈ entries, Unescaped entry) :
    let colored := (render { settings with color := true } entries).toList
    let plain := (render { settings with color := false } entries).toList
    let erased := Text.erase Palette.terminal.sequences
    erased colored = plain ∧ (Text.lines colored).map erased = Text.lines plain ∧
      '\x1b' ∉ plain := by
  intro colored plain erased
  have decorates : Decorates colored plain := decorates_render settings unescaped
  have lines_eq : (Text.lines colored).map erased = Text.lines plain := by
    rw [← List.forall₂_eq_eq_eq, List.forall₂_map_left_iff]
    exact decorates.lines.imp fun _ _ line => line.erase_eq
  exact ⟨decorates.erase_eq, lines_eq, decorates.escape_notMem⟩

/-- A read with a remark of its driver, and a voltage. -/
theorem erase_render_color_of_read_and_voltage :
    let read : Instruction :=
      { op := .read, bits := 12, received := 0xf1ab, note := "NACK", severity := .warn,
        remark := "Only two registers" }
    let entries : List Instruction := [read, { op := .sample, pin := 3, received := 2048 }]
    (∀ entry ∈ entries, Unescaped entry) ∧
      Text.erase Palette.terminal.sequences (render { color := true } entries).toList =
        "RX: 0x01AB.12 NACK (Only two registers)\nVolts on IO3: 3.300 V".toList := by
  intro read entries
  have unescaped : ∀ entry ∈ entries, Unescaped entry := by
    rw [List.forall_mem_cons, List.forall_mem_singleton]
    exact ⟨⟨by simp [read], by simp [read]⟩, ⟨by simp, by simp⟩⟩
  have plain_eq : (render { color := false } entries).toList =
      "RX: 0x01AB.12 NACK (Only two registers)\nVolts on IO3: 3.300 V".toList := by
    decide +kernel
  exact ⟨unescaped, (erase_render_color {} unescaped).1.trans plain_eq⟩

end BusScript.Report
