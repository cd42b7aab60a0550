import BusScript.Proofs.Report.Rows

/-!
# Values in a report

Where a report shows the value of an entry, and what stands beside it. The value is on a line of the
report, behind what is shown of the entries in front of it. Right behind it comes what came in
during a write, in parentheses, if the entry asks for that; and after that a blank, or the end of
the line.
-/

namespace BusScript.Report

/-- The value of an entry: what was written or what was read. -/
def shownText (settings : Settings) (p : Palette) (entry : Instruction) : List Char :=
  let isRead := entry.op == .read
  number p (entry.display settings.display isRead) entry.bits
    (if isRead then entry.received else entry.sent)

/-- What came in, in the notation of a write and in parentheses. -/
def echoText (settings : Settings) (p : Palette) (entry : Instruction) : List Char :=
  ['('] ++ number p (entry.display settings.display false) entry.bits entry.received ++ [')']

/-- The value of an entry with what came in beside it, if that is to be shown. -/
def echoedText (settings : Settings) (p : Palette) (entry : Instruction) : List Char :=
  shownText settings p entry ++ if entry.echoes then echoText settings p entry else []

/-- The row that an entry behind others may join. -/
def openRow (settings : Settings) (p : Palette) (row : Option Row) (before : List Instruction) :
    Option Row :=
  before.foldl (fun row entry => (entryText settings p row entry).2) row

/-- What stands in front of a value behind other entries: nothing if it joins the row of the last of
them, and the heading of a new row otherwise. -/
def headingBehind (p : Palette) (before : List Instruction) (entry : Instruction) : List Char :=
  if before.getLast?.any (continues · entry) then [] else rowHeading p (entry.op == .read)

/-- Whether a report shows the value of an entry with so much beside it. The value stands on a line
that is shown, behind the last line of what is written for the entries before it. A blank is the
first thing that may come after. -/
def ShowsBeside (settings : Settings) (before : List Instruction) (entry : Instruction)
    (beside : List Char) (text : String) : Prop :=
  let p := Palette.ofColor settings.color
  ∃ earlier lead rest later,
    Text.lines (rawText settings p before ++ headingBehind p before entry) = earlier ++ [lead] ∧
      (∀ c ∈ rest.head?, c = ' ') ∧
      text = String.ofList (Text.unlines
        (Text.tidy earlier ++ (lead ++ (shownText settings p entry ++ beside) ++ rest) :: later))

/-! ### Numbers end visibly -/

/-- Whether a text ends in a character that is no blank. -/
def EndsVisibly (text : List Char) : Prop :=
  ∃ front c, text = front ++ [c] ∧ Text.isBlank c = false

theorem EndsVisibly.append (front : List Char) {back : List Char} (visible : EndsVisibly back) :
    EndsVisibly (front ++ back) := by
  obtain ⟨most, c, rfl, visible⟩ := visible
  exact ⟨front ++ most, c, (List.append_assoc ..).symm, visible⟩

theorem EndsVisibly.append_of_forall {front back : List Char} (visible : EndsVisibly front)
    (no_blank : ∀ c ∈ back, Text.isBlank c = false) : EndsVisibly (front ++ back) := by
  obtain rfl | ⟨most, c, rfl⟩ := List.eq_nil_or_concat' back
  · rwa [List.append_nil]
  · exact .append front ⟨most, c, rfl, no_blank c (by simp)⟩

theorem isBlank_of_isDigit {c : Char} (digit : c.isDigit = true) : Text.isBlank c = false := by
  rw [← Bool.not_eq_true]
  intro blank
  rw [Char.isDigit, Bool.and_eq_true, decide_eq_true_iff, decide_eq_true_iff, ge_iff_le] at digit
  simp only [UInt32.le_iff_toNat_le, Char.toNat_val] at digit
  simp only [Text.isBlank, Bool.or_eq_true, Bool.and_eq_true, decide_eq_true_iff, beq_iff_eq]
    at blank
  have low : 48 ≤ c.toNat := digit.1
  have high : c.toNat ≤ 57 := digit.2
  omega

theorem isBlank_of_mem_toDigits {n : Nat} {c : Char} (member : c ∈ Nat.toDigits 10 n) :
    Text.isBlank c = false :=
  isBlank_of_isDigit (Nat.isDigit_of_mem_toDigits (by decide) (by decide) member)

theorem isBlank_of_mem_widthMark {n : Nat} {c : Char} (member : c ∈ widthMark n) :
    Text.isBlank c = false := by
  rw [widthMark] at member
  split at member
  · contradiction
  · rcases List.mem_cons.mp member with rfl | digit
    · rfl
    · exact isBlank_of_mem_toDigits digit

theorem isBlank_of_mem_fixed {base : Nat} (base_pos : 0 < base) (base_le : base ≤ 16)
    {count value : Nat} {c : Char} (member : c ∈ Digits.fixed base count value) :
    Text.isBlank c = false := by
  have digit_visible : ∀ digit < 16, Text.isBlank (Digits.char digit) = false := by decide
  induction count generalizing value with
  | zero => contradiction
  | succ count induction =>
    rw [Digits.fixed, List.mem_append, List.mem_singleton] at member
    rcases member with earlier | rfl
    · exact induction earlier
    · exact digit_visible _ (Nat.lt_of_lt_of_le (Nat.mod_lt _ base_pos) base_le)

theorem isBlank_of_mem_reset {color : Bool} {c : Char}
    (member : c ∈ (Palette.ofColor color).reset) : Text.isBlank c = false := by
  have visible : ((Palette.ofColor color).reset.all fun c => !Text.isBlank c) = true := by
    cases color <;> decide
  simpa using List.all_eq_true.mp visible c member

theorem isBlank_of_mem_highlight {color isOn : Bool} {c : Char}
    (member : c ∈ (Palette.ofColor color).highlight isOn) : Text.isBlank c = false := by
  have visible :
      (((Palette.ofColor color).highlight isOn).all fun c => !Text.isBlank c) = true := by
    cases color <;> cases isOn <;> decide
  simpa using List.all_eq_true.mp visible c member

theorem isBlank_of_mem_alternate {color isOn : Bool} {base : Nat} (base_pos : 0 < base)
    (base_le : base ≤ 16) {size count value : Nat} {c : Char}
    (member : c ∈ Digits.alternate (.ofColor color) isOn (Digits.groups base size count value)) :
    Text.isBlank c = false := by
  have visible : ∀ group ∈ Digits.groups base size count value, ∀ c ∈ group,
      Text.isBlank c = false := by
    intro group inside c member
    obtain ⟨i, -, rfl⟩ := List.mem_map.mp inside
    exact isBlank_of_mem_fixed base_pos base_le member
  generalize Digits.groups base size count value = groups at member visible
  induction groups generalizing isOn with
  | nil => contradiction
  | cons group later induction =>
    obtain ⟨first_visible, visible⟩ := List.forall_mem_cons.mp visible
    rw [Digits.alternate, List.mem_append, List.mem_append] at member
    rcases member with (escape | digit) | behind
    · exact isBlank_of_mem_highlight escape
    · exact first_visible c digit
    · exact induction behind visible

/-- A number ends with a digit, or with the sequence that returns to plain text. -/
theorem endsVisibly_number (color : Bool) (display : Display) (bits : Nat) (value : UInt32) :
    EndsVisibly (number (.ofColor color) display bits value) := by
  have hex (word : UInt32) : EndsVisibly (hexNumber (.ofColor color) (shownWidth bits) word) := by
    rw [hexNumber_eq _ word (shownWidth_pos bits) (shownWidth_le bits)]
    refine .append_of_forall (.append_of_forall ⟨['0'], 'x', rfl, rfl⟩ ?_) ?_
    · exact fun c member => isBlank_of_mem_alternate (by decide) (by decide) member
    · exact fun c member => isBlank_of_mem_reset member
  have bin (word : UInt32) : EndsVisibly (binNumber (.ofColor color) (shownWidth bits) word) := by
    rw [binNumber_eq _ word (shownWidth_pos bits) (shownWidth_le bits)]
    refine .append_of_forall (.append_of_forall ⟨['0'], 'b', rfl, rfl⟩ ?_) ?_
    · exact fun c member => isBlank_of_mem_alternate (by decide) (by decide) member
    · exact fun c member => isBlank_of_mem_reset member
  have dec (n : Nat) : EndsVisibly (Nat.toDigits 10 n) := by
    obtain ⟨most, c, split_eq⟩ := (List.eq_nil_or_concat' _).resolve_left
      (Nat.toDigits_ne_nil (n := n) (b := 10))
    exact ⟨most, c, split_eq, isBlank_of_mem_toDigits (by rw [split_eq]; simp)⟩
  have mark (bits : Nat) : ∀ c ∈ widthMark bits, Text.isBlank c = false :=
    fun c member => isBlank_of_mem_widthMark member
  cases display with
  | auto | hex => exact (hex _).append_of_forall (mark _)
  | dec => exact (dec _).append_of_forall (mark _)
  | bin => exact (bin _).append_of_forall (mark _)
  | ascii => exact (EndsVisibly.append _ (hex _)).append_of_forall (mark _)

/-! ### Behind other entries -/

theorem textFrom_append (settings : Settings) (p : Palette) (row : Option Row)
    (front back : List Instruction) :
    textFrom settings p row (front ++ back) =
      textFrom settings p row front ++
        textFrom settings p (openRow settings p row front) back := by
  induction front generalizing row with
  | nil => rfl
  | cons entry front induction =>
    rw [List.cons_append, textFrom, textFrom, induction, List.append_assoc]
    rfl

/-- Whether a value joins a row can be seen from the entry in front of it. -/
theorem any_openRow (settings : Settings) (p : Palette) (before : List Instruction)
    (entry : Instruction) :
    (openRow settings p none before).any
        (fun r => r.op == entry.op && r.radix == entry.radix) =
      before.getLast?.any (continues · entry) := by
  obtain rfl | ⟨front, last, rfl⟩ := List.eq_nil_or_concat' before
  · rfl
  · rw [openRow, List.foldl_concat, List.getLast?_concat, Option.any_some]
    cases value : hasValue last with
    | true =>
      rw [entryText_of_hasValue value, Option.any_some, continues, value, Bool.true_and, dataText]
      split <;> rfl
    | false =>
      have no_data : ¬ (last.op = .write ∨ last.op = .read) := by
        simpa [hasValue] using value
      rw [entryText, if_neg no_data, continues, value, Bool.false_and, Bool.false_and]
      rfl

theorem exists_tail_of_cell (settings : Settings) (p : Palette) (entry : Instruction) :
    ∃ tail, cell settings p entry = echoedText settings p entry ++ ' ' :: tail := by
  rw [cell, trailingNote]
  cases entry.note with
  | none => exact ⟨[], by simp [echoedText, shownText, echoText]⟩
  | some note => exact ⟨note.toList ++ [' '], by simp [echoedText, shownText, echoText]⟩

/-- One step: what is written for a value behind other entries begins with its heading and the value
itself, and goes on with a blank. -/
theorem exists_tail_of_hasValue (settings : Settings) (p : Palette) (before : List Instruction)
    {entry : Instruction} (value : hasValue entry = true) :
    ∃ tail, (entryText settings p (openRow settings p none before) entry).1 =
      headingBehind p before entry ++ (echoedText settings p entry ++ ' ' :: tail) := by
  obtain ⟨tail, cell_eq⟩ := exists_tail_of_cell settings p entry
  rw [entryText_of_hasValue value, dataText, headingBehind, ← any_openRow settings p, cell_eq]
  simp only [Option.isSome_filter]
  split
  · exact ⟨tail ++ rowBreak ++ remarkText entry, by simp⟩
  · exact ⟨tail ++ remarkText entry, by simp⟩

theorem exists_rawText_eq (settings : Settings) (p : Palette) (before after : List Instruction)
    {entry : Instruction} (value : hasValue entry = true) :
    ∃ back, rawText settings p (before ++ entry :: after) =
      (rawText settings p before ++ headingBehind p before entry) ++
        (echoedText settings p entry ++ ' ' :: back) := by
  obtain ⟨tail, text_eq⟩ := exists_tail_of_hasValue settings p before value
  rw [rawText_eq_textFrom, rawText_eq_textFrom, textFrom_append, textFrom, text_eq]
  refine ⟨tail ++ textFrom settings p
    (entryText settings p (openRow settings p none before) entry).2 after, ?_⟩
  simp only [List.append_assoc, List.cons_append]

theorem endsVisibly_echoedText (settings : Settings) (color : Bool) (entry : Instruction) :
    EndsVisibly (echoedText settings (.ofColor color) entry) := by
  rw [echoedText]
  split
  · exact .append _ ⟨_, ')', rfl, rfl⟩
  · rw [List.append_nil]
    exact endsVisibly_number color _ _ _

theorem newline_notMem_echoedText (settings : Settings) (color : Bool) (entry : Instruction) :
    '\n' ∉ echoedText settings (.ofColor color) entry := by
  have number_unbroken (display : Display) (bits : Nat) (value : UInt32) :
      '\n' ∉ number (.ofColor color) display bits value :=
    newline_notMem_number (unbrokenPalette_ofColor color) display bits value
  rw [echoedText]
  split <;> simp [shownText, echoText, number_unbroken]

/-- A report on entries shows the value of each write and of each read among them. Beside it stands
what came in if the entry asks for that, and nothing otherwise. -/
theorem render_showsBeside (settings : Settings) (before after : List Instruction)
    {entry : Instruction} (value : hasValue entry = true) :
    ShowsBeside settings before entry
      (if entry.echoes then echoText settings (.ofColor settings.color) entry else [])
      (render settings (before ++ entry :: after)) := by
  let p := Palette.ofColor settings.color
  obtain ⟨back, text_eq⟩ := exists_rawText_eq settings p before after value
  obtain ⟨earlier, lead, front_eq⟩ :=
    Text.exists_segments_concat '\n' (rawText settings p before ++ headingBehind p before entry)
  obtain ⟨segment, later, back_eq⟩ := Text.exists_segments '\n' back
  obtain ⟨most, c, piece_eq, visible⟩ := endsVisibly_echoedText settings settings.color entry
  have unbroken := newline_notMem_echoedText settings settings.color entry
  -- The piece ends visibly, so that nothing of it is trimmed, whatever comes behind it.
  have lines_eq : reportLines settings p (before ++ entry :: after) =
      Text.tidy earlier ++
        (lead ++ echoedText settings p entry ++ Text.trimEnd (' ' :: segment)) ::
          Text.tidy later := by
    rw [piece_eq] at unbroken
    rw [reportLines, text_eq, piece_eq]
    exact Text.tidyLines_append_piece front_eq (Text.segments_cons_of_ne (by decide) back_eq)
      unbroken visible
  refine ⟨earlier, lead, Text.trimEnd (' ' :: segment), Text.tidy later, front_eq, ?_, ?_⟩
  · exact fun c first => Text.eq_of_mem_head?_trimEnd first
  · rw [render, lines_eq]
    rfl

end BusScript.Report
