import BusScript.Proofs.Report.Rows
import Mathlib.Data.List.Nodup

/-!
# Remarks behind values

Where the remark of a value stands in a report on writes and reads. It comes right behind its value,
unless the value completes a row: then the row is broken first, and the remark opens the next line.

A line of such a report is a sequence of parts. Headings and indentations open a line, and values
and remarks go on with it.
-/

namespace BusScript.Report

/-! ### Parts and lines -/

/-- A value in its place. -/
structure Placed where
  entry : Instruction
  /-- The number of entries before it. -/
  index : Nat
  /-- The number of values before it in its run. -/
  position : Nat
deriving DecidableEq

/-- The place of an entry behind another, or in front of all. -/
def Placed.behind (previous : Option Placed) (entry : Instruction) : Placed :=
  match previous with
  | none => { entry := entry, index := 0, position := 0 }
  | some x =>
    { entry := entry
      index := x.index + 1
      position := if continues x.entry entry then x.position + 1 else 0 }

/-- The places of entries that come behind another. -/
def placesFrom (previous : Option Placed) : List Instruction → List Placed
  | [] => []
  | entry :: later => .behind previous entry :: placesFrom (some (.behind previous entry)) later

/-- The places of the entries of a report. -/
def places (entries : List Instruction) : List Placed :=
  placesFrom none entries

/-- Whether a value is the last of a row that holds as many as it can. -/
def Placed.CompletesRow (settings : Settings) (x : Placed) : Prop :=
  rowLength settings.display x.entry.radix ∣ x.position + 1

instance (settings : Settings) (x : Placed) : Decidable (x.CompletesRow settings) :=
  inferInstanceAs (Decidable (_ ∣ _))

/-- What a part of a line is. -/
inductive PartKind where
  | heading
  /-- The blanks in front of a row that goes on with another. -/
  | indent
  | value
  | remark
deriving DecidableEq

/-- Whether a part of this kind stands at the beginning of a line. -/
def PartKind.opensLine : PartKind → Bool
  | heading | indent => true
  | value | remark => false

/-- A part of a line. -/
structure Part where
  kind : PartKind
  /-- The value that the part comes with. -/
  place : Placed
deriving DecidableEq

/-- The heading of a row, without the line feed in front of it. -/
def headingText (p : Palette) (isRead : Bool) : List Char :=
  p.info ++ (if isRead then "RX:" else "TX:").toList ++ p.reset ++ [' ']

/-- The text of a part. A value has its echo and its note behind it, and a blank. -/
def Part.text (settings : Settings) (p : Palette) (part : Part) : List Char :=
  match part.kind with
  | .heading => headingText p (part.place.entry.op == .read)
  | .indent => "    ".toList
  | .value => cell settings p part.place.entry
  | .remark => remarkText part.place.entry

/-- The parts that come with a value. -/
def Placed.parts (settings : Settings) (x : Placed) : List Part :=
  (if x.position = 0 then [⟨.heading, x⟩] else []) ++ ⟨.value, x⟩ ::
    ((if x.CompletesRow settings then [⟨.indent, x⟩] else []) ++
      if x.entry.severity = .none then [] else [⟨.remark, x⟩])

/-- Cuts parts into lines, the first of which goes on with the given one. -/
def cutLines (line : List Part) : List Part → List (List Part)
  | [] => [line]
  | part :: later =>
    if part.kind.opensLine then line :: cutLines [part] later else cutLines (line ++ [part]) later

/-- The lines of a report, behind an empty one. -/
def partLines (settings : Settings) (entries : List Instruction) : List (List Part) :=
  cutLines [] ((places entries).flatMap (Placed.parts settings))

/-! ### Places -/

theorem map_entry_placesFrom (previous : Option Placed) (entries : List Instruction) :
    (placesFrom previous entries).map Placed.entry = entries := by
  induction entries generalizing previous with
  | nil => rfl
  | cons entry later induction =>
    rw [placesFrom, List.map_cons, induction]
    cases previous <;> rfl

theorem map_index_placesFrom (previous : Option Placed) (entries : List Instruction) :
    (placesFrom previous entries).map Placed.index =
      List.range' (Placed.behind previous default).index entries.length := by
  induction entries generalizing previous with
  | nil => rfl
  | cons entry later induction =>
    rw [placesFrom, List.map_cons, induction, List.length_cons, List.range'_succ]
    cases previous <;> rfl

theorem nodup_places (entries : List Instruction) : (places entries).Nodup := by
  apply List.Nodup.of_map Placed.index
  rw [places, map_index_placesFrom]
  exact List.nodup_range'

theorem place_of_mem_parts {settings : Settings} {x : Placed} {part : Part}
    (member : part ∈ x.parts settings) : part.place = x := by
  rw [Placed.parts, List.mem_append, List.mem_cons, List.mem_append] at member
  rcases member with inside | rfl | inside | inside
  · split at inside <;> simp_all
  · rfl
  · split at inside <;> simp_all
  · split at inside <;> simp_all

/-- No part comes twice. -/
theorem nodup_flatMap_parts (settings : Settings) (entries : List Instruction) :
    ((places entries).flatMap (Placed.parts settings)).Nodup := by
  rw [List.nodup_flatMap]
  constructor
  · intro x _
    rw [Placed.parts]
    split <;> split <;> split <;> simp
  · refine (nodup_places entries).imp fun {x y} distinct part first second => distinct ?_
    rw [← place_of_mem_parts first, place_of_mem_parts second]

/-! ### Lines -/

theorem flatten_cutLines (line parts : List Part) :
    (cutLines line parts).flatten = line ++ parts := by
  induction parts generalizing line with
  | nil => simp [cutLines]
  | cons part later induction =>
    rw [cutLines]
    split
    · rw [List.flatten_cons, induction, List.singleton_append]
    · rw [induction, List.append_assoc, List.singleton_append]

/-- Cutting goes on with the last line of what was cut already. -/
theorem exists_cutLines_append (line front : List Part) :
    ∃ lines last, ∀ back, cutLines line (front ++ back) = lines ++ cutLines last back := by
  induction front generalizing line with
  | nil => exact ⟨[], line, fun _ => rfl⟩
  | cons part later induction =>
    by_cases opens : part.kind.opensLine = true
    · obtain ⟨lines, last, cut⟩ := induction [part]
      refine ⟨line :: lines, last, fun back => ?_⟩
      rw [List.cons_append, cutLines, if_pos opens, cut, List.cons_append]
    · obtain ⟨lines, last, cut⟩ := induction (line ++ [part])
      refine ⟨lines, last, fun back => ?_⟩
      rw [List.cons_append, cutLines, if_neg opens, cut]

theorem exists_cutLines_eq_cons (line parts : List Part) :
    ∃ rest lines, cutLines line parts = (line ++ rest) :: lines := by
  induction parts generalizing line with
  | nil => exact ⟨[], [], by rw [List.append_nil]; rfl⟩
  | cons part later induction =>
    rw [cutLines]
    split
    · exact ⟨[], _, by rw [List.append_nil]⟩
    · obtain ⟨rest, lines, cut⟩ := induction (line ++ [part])
      exact ⟨part :: rest, lines, by rw [cut, List.append_assoc, List.singleton_append]⟩

section Lines

variable {settings : Settings} {entries : List Instruction} {x : Placed}

/-- The parts of a report around those of one of its values. -/
theorem exists_partLines_append (settings : Settings) (member : x ∈ places entries) :
    ∃ lines last back, partLines settings entries =
      lines ++ cutLines last (x.parts settings ++ back) := by
  obtain ⟨before, after, places_eq⟩ := List.append_of_mem member
  obtain ⟨lines, last, cut⟩ := exists_cutLines_append [] (before.flatMap (Placed.parts settings))
  refine ⟨lines, last, after.flatMap (Placed.parts settings), ?_⟩
  rw [partLines, places_eq, List.flatMap_append, List.flatMap_cons, cut]

/-- A value opens its run or goes on with the line. -/
theorem exists_cutLines_parts (settings : Settings) (x : Placed) (last back : List Part) :
    ∃ lines lead, cutLines last (x.parts settings ++ back) =
      lines ++ cutLines (lead ++ [⟨.value, x⟩])
        ((if x.CompletesRow settings then [⟨.indent, x⟩] else []) ++
          (if x.entry.severity = .none then [] else [⟨.remark, x⟩]) ++ back) := by
  rw [Placed.parts]
  split
  · exact ⟨[last], [⟨.heading, x⟩], rfl⟩
  · exact ⟨[], last, rfl⟩

theorem exists_line_of_not_completesRow (member : x ∈ places entries)
    (remarked : x.entry.severity ≠ .none) (incomplete : ¬ x.CompletesRow settings) :
    ∃ before lead rest after, partLines settings entries =
      before ++ (lead ++ ⟨.value, x⟩ :: ⟨.remark, x⟩ :: rest) :: after := by
  obtain ⟨earlier, last, back, lines_eq⟩ := exists_partLines_append settings member
  obtain ⟨lines, lead, cut⟩ := exists_cutLines_parts settings x last back
  obtain ⟨rest, after, later_eq⟩ :=
    exists_cutLines_eq_cons (lead ++ [⟨.value, x⟩] ++ [⟨.remark, x⟩]) back
  refine ⟨earlier ++ lines, lead, rest, after, ?_⟩
  rw [lines_eq, cut, if_neg incomplete, if_neg remarked, List.nil_append, List.singleton_append,
    cutLines, if_neg (by simp [PartKind.opensLine]), later_eq]
  simp

theorem exists_lines_of_completesRow (member : x ∈ places entries)
    (remarked : x.entry.severity ≠ .none) (complete : x.CompletesRow settings) :
    ∃ before lead rest after, partLines settings entries =
      before ++ (lead ++ [⟨.value, x⟩]) :: (⟨.indent, x⟩ :: ⟨.remark, x⟩ :: rest) :: after := by
  obtain ⟨earlier, last, back, lines_eq⟩ := exists_partLines_append settings member
  obtain ⟨lines, lead, cut⟩ := exists_cutLines_parts settings x last back
  obtain ⟨rest, after, later_eq⟩ :=
    exists_cutLines_eq_cons [(⟨.indent, x⟩ : Part), ⟨.remark, x⟩] back
  refine ⟨earlier ++ lines, lead, rest, after, ?_⟩
  rw [lines_eq, cut, if_pos complete, if_neg remarked, List.singleton_append, List.cons_append,
    List.singleton_append, cutLines, if_pos (by rfl), cutLines,
    if_neg (by simp [PartKind.opensLine]),
    List.singleton_append, later_eq]
  simp

theorem nodup_flatten_partLines (settings : Settings) (entries : List Instruction) :
    (partLines settings entries).flatten.Nodup := by
  rw [partLines, flatten_cutLines]
  exact nodup_flatMap_parts settings entries

/-- The remark of a value shares a line with it unless the value completes a row. -/
theorem exists_line_iff_not_completesRow (member : x ∈ places entries)
    (remarked : x.entry.severity ≠ .none) :
    (∃ line ∈ partLines settings entries, ⟨.value, x⟩ ∈ line ∧ ⟨.remark, x⟩ ∈ line) ↔
      ¬ x.CompletesRow settings := by
  constructor
  · rintro ⟨line, inside, has_value, has_remark⟩ complete
    obtain ⟨before, lead, rest, after, lines_eq⟩ :=
      exists_lines_of_completesRow member remarked complete
    obtain ⟨-, disjoint⟩ := List.nodup_flatten.mp (nodup_flatten_partLines settings entries)
    have eq_of_mem {other : List Part} {part : Part}
        (other_mem : other ∈ partLines settings entries) (in_line : part ∈ line)
        (in_other : part ∈ other) : line = other := by
      by_contra distinct
      have symmetric : Std.Symm (@List.Disjoint Part) :=
        ⟨fun _ _ apart _ second first => apart first second⟩
      exact disjoint.forall inside other_mem distinct in_line in_other
    have value_line : line = lead ++ [⟨.value, x⟩] :=
      eq_of_mem (by simp [lines_eq]) has_value (by simp)
    have remark_line : line = ⟨.indent, x⟩ :: ⟨.remark, x⟩ :: rest :=
      eq_of_mem (by simp [lines_eq]) has_remark (by simp)
    -- One line would stand in two places of the report, though no part comes twice.
    rw [lines_eq, ← value_line, ← remark_line] at disjoint
    have apart := (List.pairwise_cons.mp (List.pairwise_append.mp disjoint).2.1).1 line (by simp)
    exact apart has_value has_value
  · intro incomplete
    obtain ⟨before, lead, rest, after, lines_eq⟩ :=
      exists_line_of_not_completesRow member remarked incomplete
    exact ⟨lead ++ ⟨.value, x⟩ :: ⟨.remark, x⟩ :: rest, by simp [lines_eq], by simp, by simp⟩

end Lines

/-! ### The text of the lines -/

/-- The text of a part as the report is written, with the line feed in front of what opens a line.
-/
def Part.raw (settings : Settings) (p : Palette) (part : Part) : List Char :=
  if part.kind.opensLine then '\n' :: part.text settings p else part.text settings p

/-- The row that an entry behind a value may join. -/
def rowBehind (settings : Settings) (previous : Option Placed) : Option Row :=
  previous.map fun x =>
    { op := x.entry.op
      radix := x.entry.radix
      left := rowLength settings.display x.entry.radix -
        (x.position + 1) % rowLength settings.display x.entry.radix }

theorem rowLength_eq (display : Display) (radix : Radix) :
    rowLength display radix = 4 ∨ rowLength display radix = 8 := by
  rw [rowLength]
  split
  · exact .inl rfl
  · exact .inr rfl

section Text

variable {settings : Settings} {p : Palette} {previous : Option Placed} {entry : Instruction}

theorem flatMap_raw_parts (x : Placed) :
    (x.parts settings).flatMap (Part.raw settings p) =
      (if x.position = 0 then rowHeading p (x.entry.op == .read) else []) ++
        (cell settings p x.entry ++ (if x.CompletesRow settings then rowBreak else []) ++
          remarkText x.entry) := by
  have heading_eq : rowHeading p (x.entry.op == .read) =
      '\n' :: headingText p (x.entry.op == .read) := rfl
  rw [Placed.parts, heading_eq]
  by_cases mild : x.entry.severity = .none
  · rw [if_pos mild, remarkText_of_mild mild]
    split <;> split <;> simp [Part.raw, Part.text, PartKind.opensLine, rowBreak]
  · rw [if_neg mild]
    split <;> split <;> simp [Part.raw, Part.text, PartKind.opensLine, rowBreak]

/-- The number of values until a row is broken, behind a value and behind the next. -/
theorem left_of_position {full : Nat} (full_eq : full = 4 ∨ full = 8) (position : Nat) :
    1 ≤ full - (position + 1) % full ∧
      (full - (position + 1) % full = 1 ↔ full ∣ position + 1 + 1) ∧
      (full ∣ position + 1 + 1 → full - (position + 1 + 1) % full = full) ∧
      (¬ full ∣ position + 1 + 1 →
        full - (position + 1 + 1) % full = full - (position + 1) % full - 1) := by
  rcases full_eq with rfl | rfl <;> omega

/-- One step: a value that goes on with a run. -/
theorem entryText_of_continues {x : Placed} (value : hasValue entry = true)
    (joins : continues x.entry entry = true) :
    entryText settings p (rowBehind settings (some x)) entry =
      (((Placed.behind (some x) entry).parts settings).flatMap (Part.raw settings p),
        rowBehind settings (some (.behind (some x) entry))) := by
  simp only [continues, Bool.and_eq_true, beq_iff_eq] at joins
  obtain ⟨⟨earlier, op_eq⟩, radix_eq⟩ := joins
  have place_eq : Placed.behind (some x) entry =
      { entry := entry, index := x.index + 1, position := x.position + 1 } := by
    rw [Placed.behind, if_pos (by simp [continues, earlier, op_eq, radix_eq])]
  obtain ⟨left_pos, last_iff, left_eq, left_eq'⟩ :=
    left_of_position (rowLength_eq settings.display entry.radix) x.position
  rw [flatMap_raw_parts, rowBehind, Option.map_some, op_eq, radix_eq,
    entryText_of_takes ⟨value, rfl, rfl⟩ left_pos, place_eq, if_neg (Nat.succ_ne_zero _),
    List.nil_append, rowBehind, Option.map_some]
  by_cases complete : Placed.CompletesRow settings
      { entry := entry, index := x.index + 1, position := x.position + 1 }
  · rw [if_pos (last_iff.mpr complete), if_pos complete, left_eq complete]
  · rw [if_neg (fun last => complete (last_iff.mp last)), if_neg complete, left_eq' complete,
      List.append_nil]

/-- One step: a value that opens a run. -/
theorem entryText_of_opens (value : hasValue entry = true)
    (apart : ∀ x ∈ previous, continues x.entry entry = false)
    (values : ∀ x ∈ previous, hasValue x.entry = true) :
    entryText settings p (rowBehind settings previous) entry =
      (((Placed.behind previous entry).parts settings).flatMap (Part.raw settings p),
        rowBehind settings (some (.behind previous entry))) := by
  have not_takes : ∀ row ∈ rowBehind settings previous, ¬ row.Takes entry := by
    intro row row_eq takes
    obtain ⟨x, x_eq, rfl⟩ := Option.map_eq_some_iff.mp row_eq
    have joins : continues x.entry entry = true :=
      Row.Takes.continues_of_takes ⟨values x x_eq, rfl, rfl⟩ takes
    rw [apart x x_eq] at joins
    contradiction
  obtain ⟨index, place_eq⟩ : ∃ index,
      Placed.behind previous entry = { entry := entry, index := index, position := 0 } := by
    cases previous with
    | none => exact ⟨0, rfl⟩
    | some x => exact ⟨x.index + 1, by simp [Placed.behind, apart x rfl]⟩
  have full_eq := rowLength_eq settings.display entry.radix
  have full_pos : 1 ≤ (Row.ofEntry settings entry).left := rowLength_pos _ _
  have not_last : ¬ (Row.ofEntry settings entry).left = 1 := by
    have left_eq : (Row.ofEntry settings entry).left = rowLength settings.display entry.radix := rfl
    omega
  have incomplete :
      ¬ Placed.CompletesRow settings { entry := entry, index := index, position := 0 } := by
    have not_dvd : ¬ rowLength settings.display entry.radix ∣ 0 + 1 := by
      rcases full_eq with full_eq | full_eq <;> rw [full_eq] <;> decide
    exact not_dvd
  have left_eq : rowLength settings.display entry.radix -
      (0 + 1) % rowLength settings.display entry.radix =
        rowLength settings.display entry.radix - 1 := by
    rcases full_eq with full_eq | full_eq <;> rw [full_eq]
  rw [entryText_of_not_takes value _ not_takes, flatMap_raw_parts, place_eq, if_pos rfl,
    entryText_of_takes ⟨value, rfl, rfl⟩ full_pos, if_neg not_last, if_neg incomplete,
    List.append_nil, rowBehind, Option.map_some, left_eq]
  rfl

theorem textFrom_rowBehind (settings : Settings) (p : Palette) {entries : List Instruction}
    (values : ∀ entry ∈ entries, hasValue entry = true)
    (earlier : ∀ x ∈ previous, hasValue x.entry = true) :
    textFrom settings p (rowBehind settings previous) entries =
      ((placesFrom previous entries).flatMap (Placed.parts settings)).flatMap
        (Part.raw settings p) := by
  induction entries generalizing previous with
  | nil => rfl
  | cons entry later induction =>
    obtain ⟨value, values⟩ := List.forall_mem_cons.mp values
    have step : entryText settings p (rowBehind settings previous) entry =
        (((Placed.behind previous entry).parts settings).flatMap (Part.raw settings p),
          rowBehind settings (some (.behind previous entry))) := by
      by_cases joins : ∃ x ∈ previous, continues x.entry entry = true
      · obtain ⟨x, rfl, joins⟩ := joins
        exact entryText_of_continues value joins
      · refine entryText_of_opens value (fun x x_eq => ?_) earlier
        rw [← Bool.not_eq_true]
        exact fun continued => joins ⟨x, x_eq, continued⟩
    have entry_eq : (Placed.behind previous entry).entry = entry := by
      cases previous <;> rfl
    have value_behind : ∀ x ∈ some (Placed.behind previous entry), hasValue x.entry = true := by
      rintro x ⟨⟩
      rw [entry_eq]
      exact value
    rw [textFrom, step, placesFrom, List.flatMap_cons, List.flatMap_append,
      induction values value_behind]

end Text

/-- Whether the remark of an entry stays on one line. -/
def UnbrokenRemark (entry : Instruction) : Prop :=
  ∀ remark ∈ entry.remark, '\n' ∉ remark.toList

theorem newline_notMem_cell (settings : Settings) {p : Palette} (palette : UnbrokenPalette p)
    {entry : Instruction} (unbroken : UnbrokenNote entry) : '\n' ∉ cell settings p entry := by
  have note := newline_notMem_trailingNote unbroken
  rw [cell]
  split <;> simp [newline_notMem_number palette, note]

theorem newline_notMem_remarkText {entry : Instruction} (unbroken : UnbrokenRemark entry) :
    '\n' ∉ remarkText entry := by
  rw [remarkText]
  split
  · exact List.not_mem_nil
  · cases remark_eq : entry.remark with
    | none => decide
    | some remark => simp [unbroken remark remark_eq]

theorem newline_notMem_headingText {p : Palette} (palette : UnbrokenPalette p) (isRead : Bool) :
    '\n' ∉ headingText p isRead := by
  rw [headingText]
  split <;> simp [palette.info, palette.reset]

theorem newline_notMem_text (settings : Settings) {p : Palette} (palette : UnbrokenPalette p)
    {part : Part} (unbroken : UnbrokenNote part.place.entry ∧ UnbrokenRemark part.place.entry) :
    '\n' ∉ part.text settings p := by
  rw [Part.text]
  split
  · exact newline_notMem_headingText palette _
  · decide
  · exact newline_notMem_cell settings palette unbroken.1
  · exact newline_notMem_remarkText unbroken.2

theorem tidyLines_cutLines {settings : Settings} {p : Palette} {line parts : List Part}
    (line_unbroken : ∀ part ∈ line, '\n' ∉ part.text settings p)
    (unbroken : ∀ part ∈ parts, '\n' ∉ part.text settings p) :
    Text.tidyLines (line.flatMap (Part.text settings p) ++ parts.flatMap (Part.raw settings p)) =
      Text.tidy ((cutLines line parts).map fun line => line.flatMap (Part.text settings p)) := by
  induction parts generalizing line with
  | nil =>
    rw [List.flatMap_nil, List.append_nil, cutLines, List.map_singleton]
    apply Text.tidyLines_of_notMem
    simpa using line_unbroken
  | cons part later induction =>
    obtain ⟨part_unbroken, unbroken⟩ := List.forall_mem_cons.mp unbroken
    rw [List.flatMap_cons, cutLines, Part.raw]
    split
    -- A part that opens a line has a line feed in front: the line before it is complete.
    · have line_eq : Text.tidyLines (line.flatMap (Part.text settings p)) =
          Text.tidy [line.flatMap (Part.text settings p)] := by
        apply Text.tidyLines_of_notMem
        simpa using line_unbroken
      have later_eq := @induction [part] (by simpa using part_unbroken) unbroken
      rw [List.flatMap_singleton] at later_eq
      rw [List.cons_append, Text.tidyLines_append_newline, line_eq, later_eq, List.map_cons,
        ← Text.tidy_cons]
    · have extended : ∀ other ∈ line ++ [part], '\n' ∉ other.text settings p :=
        List.forall_mem_append.mpr ⟨line_unbroken, by simpa using part_unbroken⟩
      rw [← induction extended unbroken, List.flatMap_append, List.flatMap_singleton,
        List.append_assoc]

/-- A report on values has the lines that its parts are cut into. -/
theorem reportLines_eq_tidy (settings : Settings) {p : Palette} (palette : UnbrokenPalette p)
    {entries : List Instruction} (values : ∀ entry ∈ entries, hasValue entry = true)
    (unbroken : ∀ entry ∈ entries, UnbrokenNote entry ∧ UnbrokenRemark entry) :
    reportLines settings p entries =
      Text.tidy ((partLines settings entries).map fun line =>
        line.flatMap (Part.text settings p)) := by
  have parts_unbroken : ∀ part ∈ (places entries).flatMap (Placed.parts settings),
      '\n' ∉ part.text settings p := by
    intro part member
    obtain ⟨x, inside, part_mem⟩ := List.mem_flatMap.mp member
    apply newline_notMem_text settings palette
    apply unbroken
    rw [place_of_mem_parts part_mem, ← map_entry_placesFrom none entries]
    exact List.mem_map_of_mem inside
  have nothing_before : ∀ x ∈ (none : Option Placed), hasValue x.entry = true := by simp
  have text_eq : textFrom settings p none entries = ((places entries).flatMap
      (Placed.parts settings)).flatMap (Part.raw settings p) :=
    textFrom_rowBehind settings p values nothing_before
  rw [reportLines, rawText_eq_textFrom, text_eq, partLines,
    ← tidyLines_cutLines (by simp) parts_unbroken]
  rfl

/-- The remark of an entry in parentheses, without the blank behind them. -/
def parenthesized (entry : Instruction) : List Char :=
  ['('] ++ (entry.remark.getD "").toList ++ [')']

theorem remarkText_of_remarked {entry : Instruction} (remarked : entry.severity ≠ .none) :
    remarkText entry = parenthesized entry ++ [' '] := by
  rw [remarkText, if_neg remarked, parenthesized, List.append_assoc _ [')']]
  rfl

/-- A line with a remark has the remark in its output, and all that is in front of it. -/
theorem exists_reportLine_of_remark (settings : Settings) (p : Palette) {lines : List (List Part)}
    {front back : List Part} {x : Placed} (remarked : x.entry.severity ≠ .none)
    (member : front ++ ⟨.remark, x⟩ :: back ∈ lines) :
    ∃ line ∈ Text.tidy (lines.map fun line => line.flatMap (Part.text settings p)),
      front.flatMap (Part.text settings p) ++ parenthesized x.entry <+: line := by
  have text_eq : (front ++ ⟨.remark, x⟩ :: back).flatMap (Part.text settings p) =
      front.flatMap (Part.text settings p) ++ ['('] ++ (x.entry.remark.getD "").toList ++
        ')' :: ' ' :: back.flatMap (Part.text settings p) := by
    rw [List.flatMap_append, List.flatMap_cons,
      show Part.text settings p ⟨.remark, x⟩ = remarkText x.entry from rfl,
      remarkText_of_remarked remarked, parenthesized]
    simp
  have line_mem := List.mem_map_of_mem (f := fun line => line.flatMap (Part.text settings p)) member
  rw [text_eq] at line_mem
  obtain ⟨kept, line_mem⟩ := Text.exists_mem_tidy line_mem (by decide)
  exact ⟨_, line_mem, kept, by simp [parenthesized]⟩

/-- A remark is on the line of its value, right behind it, unless the value completes a row; then it
stands on the next line, right behind the indentation. -/
theorem remark_beside_value_iff {settings : Settings} {entries : List Instruction}
    (values : ∀ entry ∈ entries, hasValue entry = true)
    (unbroken : ∀ entry ∈ entries, UnbrokenNote entry ∧ UnbrokenRemark entry) :
    let p := Palette.ofColor settings.color
    let lines := partLines settings entries
    render settings entries = String.ofList (Text.unlines (reportLines settings p entries)) ∧
      reportLines settings p entries =
        Text.tidy (lines.map fun line => line.flatMap (Part.text settings p)) ∧
      (places entries).map Placed.entry = entries ∧
      lines.flatten = (places entries).flatMap (Placed.parts settings) ∧ lines.flatten.Nodup ∧
      ∀ x ∈ places entries, x.entry.severity ≠ .none →
        ((∃ line ∈ lines, ⟨.value, x⟩ ∈ line ∧ ⟨.remark, x⟩ ∈ line) ↔ ¬ x.CompletesRow settings) ∧
        (¬ x.CompletesRow settings → ∃ line ∈ reportLines settings p entries,
          cell settings p x.entry ++ parenthesized x.entry <:+: line) ∧
        (x.CompletesRow settings →
          (∃ line ∈ reportLines settings p entries,
            "    ".toList ++ parenthesized x.entry <+: line) ∧
          ∃ before lead rest after, lines =
            before ++ (lead ++ [⟨.value, x⟩]) ::
              (⟨.indent, x⟩ :: ⟨.remark, x⟩ :: rest) :: after) := by
  intro p lines
  have lines_eq := reportLines_eq_tidy settings (unbrokenPalette_ofColor settings.color) values
    unbroken
  refine ⟨rfl, lines_eq, map_entry_placesFrom none entries, flatten_cutLines [] _,
    nodup_flatten_partLines settings entries, fun x member remarked => ?_⟩
  rw [lines_eq]
  refine ⟨exists_line_iff_not_completesRow member remarked, fun incomplete => ?_,
    fun complete => ?_⟩
  · obtain ⟨before, lead, rest, after, parts_eq⟩ :=
      exists_line_of_not_completesRow member remarked incomplete
    have line_mem : (lead ++ [⟨.value, x⟩]) ++ ⟨.remark, x⟩ :: rest ∈ lines := by
      simp [lines, parts_eq]
    obtain ⟨line, line_mem, behind, line_eq⟩ :=
      exists_reportLine_of_remark settings p remarked line_mem
    refine ⟨line, line_mem, lead.flatMap (Part.text settings p), behind, ?_⟩
    rw [← line_eq, List.flatMap_append, List.flatMap_singleton]
    simp [Part.text]
  · obtain ⟨before, lead, rest, after, parts_eq⟩ :=
      exists_lines_of_completesRow member remarked complete
    have line_mem : [⟨.indent, x⟩] ++ ⟨.remark, x⟩ :: rest ∈ lines := by
      simp [lines, parts_eq]
    exact ⟨exists_reportLine_of_remark settings p remarked line_mem,
      before, lead, rest, after, parts_eq⟩

/-- The remark of the first of eight writes is beside its value; that of the eighth, which
completes the row, opens the next line. -/
theorem remark_of_first_and_eighth_write :
    let warned : Instruction := { op := .write, severity := .warn, remark := some "no answer" }
    let halted : Instruction :=
      { op := .write, sent := 0xff, severity := .error, remark := some "Halting: 0xff entered" }
    let entries := warned :: List.replicate 6 { op := .write } ++ [halted]
    (∀ entry ∈ entries, hasValue entry = true) ∧
      (∀ entry ∈ entries, UnbrokenNote entry ∧ UnbrokenRemark entry) ∧
      (∃ line ∈ reportLines {} .plain entries,
        cell {} .plain warned ++ parenthesized warned <:+: line) ∧
      ∃ line ∈ reportLines {} .plain entries, "    ".toList ++ parenthesized halted <+: line := by
  intro warned halted entries
  have values : ∀ entry ∈ entries, hasValue entry = true := by decide
  have unbroken : ∀ entry ∈ entries, UnbrokenNote entry ∧ UnbrokenRemark entry := by
    unfold UnbrokenNote UnbrokenRemark
    decide
  obtain ⟨-, -, -, -, -, places_eq⟩ := @remark_beside_value_iff {} entries values unbroken
  have first := places_eq { entry := warned, index := 0, position := 0 } (by decide) (by decide)
  have eighth := places_eq { entry := halted, index := 7, position := 7 } (by decide) (by decide)
  exact ⟨values, unbroken, first.2.1 (by decide), (eighth.2.2 (by decide)).1⟩

/-- Not every remark is on the line of its value. -/
theorem eighth_remark_apart_from_value :
    ¬ ∀ (settings : Settings) (entries : List Instruction),
      (∀ entry ∈ entries, hasValue entry = true) →
      (∀ entry ∈ entries, UnbrokenNote entry ∧ UnbrokenRemark entry) →
      ∀ entry ∈ entries, entry.severity ≠ .none →
        ∃ line ∈ reportLines settings (.ofColor settings.color) entries,
          number (.ofColor settings.color) (entry.display settings.display (entry.op == .read))
            entry.bits (if entry.op == .read then entry.received else entry.sent) <:+: line ∧
          parenthesized entry <:+: line := by
  intro documented
  let noted (value : UInt32) : Instruction :=
    { op := .write, sent := value, note := some "--DUMMY1- write()" }
  let halted : Instruction :=
    { op := .write, sent := 0xff, severity := .error, remark := some "Halting: 0xff entered" }
  let entries := [1, 2, 3, 4, 5, 6, 7].map noted ++ [halted]
  have values : ∀ entry ∈ entries, hasValue entry = true := by decide
  have unbroken : ∀ entry ∈ entries, UnbrokenNote entry ∧ UnbrokenRemark entry := by
    unfold UnbrokenNote UnbrokenRemark
    decide
  have apart : ¬ ∃ line ∈ reportLines {} .plain entries,
      number .plain .hex 8 0xff <:+: line ∧ parenthesized halted <:+: line := by
    decide +kernel
  exact apart (documented {} entries values unbroken halted (by simp [entries]) (by decide))

end BusScript.Report
