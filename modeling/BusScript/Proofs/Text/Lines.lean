import BusScript.Text.Blank

/-!
# Tidy lines

A text that is made of pieces, each of which begins with a line feed, has the tidy lines of its
pieces. A blank at the end of a line makes no difference to them.
-/

namespace BusScript.Text

section Segments

variable {α : Type} [BEq α] [LawfulBEq α] {separator : α}

theorem segments_cons_self (l : List α) :
    segments separator (separator :: l) = [] :: segments separator l := by
  rw [segments_cons]
  simp [consSegment]

theorem segments_cons_of_ne {a : α} {l segment : List α} {later : List (List α)}
    (ordinary : a ≠ separator) (segments_eq : segments separator l = segment :: later) :
    segments separator (a :: l) = (a :: segment) :: later := by
  rw [segments_cons, segments_eq]
  simp [consSegment, ordinary]

theorem exists_segments (separator : α) (l : List α) :
    ∃ segment later, segments separator l = segment :: later := by
  induction l with
  | nil => exact ⟨[], [], rfl⟩
  | cons a l induction =>
    obtain ⟨segment, later, segments_eq⟩ := induction
    by_cases ordinary : a = separator
    · subst ordinary
      exact ⟨_, _, segments_cons_self l⟩
    · exact ⟨_, _, segments_cons_of_ne ordinary segments_eq⟩

/-- A separator cuts a sequence in two. -/
theorem segments_append_separator (front back : List α) :
    segments separator (front ++ separator :: back) =
      segments separator front ++ segments separator back := by
  induction front with
  | nil => exact segments_cons_self back
  | cons a front induction =>
    by_cases ordinary : a = separator
    · subst ordinary
      rw [List.cons_append, segments_cons_self, segments_cons_self, induction, List.cons_append]
    · obtain ⟨segment, later, segments_eq⟩ := exists_segments separator front
      rw [segments_eq, List.cons_append] at induction
      rw [List.cons_append, segments_cons_of_ne ordinary induction,
        segments_cons_of_ne ordinary segments_eq, List.cons_append]

theorem segments_of_notMem {l : List α} (apart : separator ∉ l) : segments separator l = [l] := by
  induction l with
  | nil => rfl
  | cons a l induction =>
    rw [List.mem_cons, not_or] at apart
    exact segments_cons_of_ne (Ne.symm apart.1) (induction apart.2)

/-- Segments that are joined by the separator are found again. -/
theorem segments_intercalate {parts : List (List α)} (some_part : parts ≠ [])
    (apart : ∀ part ∈ parts, separator ∉ part) :
    segments separator ([separator].intercalate parts) = parts := by
  induction parts with
  | nil => contradiction
  | cons part parts induction =>
    obtain ⟨part_apart, apart⟩ := List.forall_mem_cons.mp apart
    cases parts with
    | nil => rw [List.intercalate_singleton, segments_of_notMem part_apart]
    | cons next parts =>
      rw [List.intercalate_cons_cons, List.append_assoc, List.singleton_append,
        segments_append_separator, segments_of_notMem part_apart,
        induction (List.cons_ne_nil _ _) apart, List.singleton_append]

theorem notMem_of_mem_segments {l segment : List α} (member : segment ∈ segments separator l) :
    separator ∉ segment := by
  induction l generalizing segment with
  | nil =>
    rw [segments_nil, List.mem_singleton] at member
    subst member
    exact List.not_mem_nil
  | cons a l induction =>
    by_cases ordinary : a = separator
    · subst ordinary
      rw [segments_cons_self] at member
      rcases List.mem_cons.mp member with rfl | behind
      · exact List.not_mem_nil
      · exact induction behind
    · obtain ⟨first, later, segments_eq⟩ := exists_segments separator l
      rw [segments_cons_of_ne ordinary segments_eq] at member
      rw [segments_eq] at induction
      rcases List.mem_cons.mp member with rfl | behind
      · rw [List.mem_cons, not_or]
        exact ⟨Ne.symm ordinary, induction List.mem_cons_self⟩
      · exact induction (List.mem_cons_of_mem _ behind)

theorem exists_segments_concat (separator : α) (l : List α) :
    ∃ earlier last, segments separator l = earlier ++ [last] := by
  obtain ⟨segment, later, segments_eq⟩ := exists_segments separator l
  rw [segments_eq]
  exact ⟨_, _, (List.dropLast_concat_getLast (List.cons_ne_nil segment later)).symm⟩

/-- The last segment of a sequence goes on with the first segment of what comes behind it. -/
theorem segments_append {front back last first : List α} {earlier later : List (List α)}
    (front_eq : segments separator front = earlier ++ [last])
    (back_eq : segments separator back = first :: later) :
    segments separator (front ++ back) = earlier ++ (last ++ first) :: later := by
  induction front generalizing earlier last with
  | nil =>
    obtain ⟨rfl, rfl⟩ : earlier = [] ∧ last = [] := by
      cases earlier with
      | nil => simpa [eq_comm] using front_eq
      | cons => simp at front_eq
    exact back_eq
  | cons a front induction =>
    obtain ⟨segment, rest, segments_eq⟩ := exists_segments separator front
    by_cases ordinary : a = separator
    · subst ordinary
      rw [segments_cons_self] at front_eq
      cases earlier with
      | nil => simp [segments_eq] at front_eq
      | cons empty earlier =>
        obtain ⟨rfl, later_eq⟩ := List.cons.inj front_eq
        rw [List.cons_append, segments_cons_self, induction later_eq, List.cons_append]
    · rw [segments_cons_of_ne ordinary segments_eq] at front_eq
      cases earlier with
      | nil =>
        obtain ⟨rfl, rfl⟩ := List.cons.inj front_eq
        have whole_eq := induction (segments_eq.trans (List.nil_append _).symm)
        rw [List.cons_append, segments_cons_of_ne ordinary whole_eq]
        rfl
      | cons opening earlier =>
        obtain ⟨rfl, rfl⟩ := List.cons.inj front_eq
        have whole_eq := induction (segments_eq.trans (List.cons_append ..).symm)
        rw [List.cons_append, segments_cons_of_ne ordinary whole_eq]
        rfl

end Segments

/-- Lines without the blanks at their ends and without those that are then empty. -/
def tidy (lines : List (List Char)) : List (List Char) :=
  (lines.map trimEnd).filter fun line => !line.isEmpty

theorem tidyLines_eq_tidy (text : List Char) : tidyLines text = tidy (lines text) := rfl

theorem tidy_append (front back : List (List Char)) :
    tidy (front ++ back) = tidy front ++ tidy back := by
  rw [tidy, List.map_append, List.filter_append]
  rfl

theorem tidy_cons (line : List Char) (later : List (List Char)) :
    tidy (line :: later) = tidy [line] ++ tidy later :=
  tidy_append [line] later

theorem trimEnd_append_blank (text : List Char) {c : Char} (blank : isBlank c = true) :
    trimEnd (text ++ [c]) = trimEnd text := by
  rw [trimEnd, List.reverse_append, List.reverse_singleton, List.singleton_append,
    List.dropWhile_cons_of_pos blank]
  rfl

/-- Only what is behind a character that is no blank is trimmed. -/
theorem trimEnd_append_visible (front back : List Char) {c : Char} (visible : isBlank c = false) :
    trimEnd (front ++ c :: back) = front ++ c :: trimEnd back := by
  have ends : (c :: front.reverse).dropWhile isBlank = c :: front.reverse := by
    rw [List.dropWhile_cons_of_neg]
    simp [visible]
  rw [trimEnd, List.reverse_append, List.reverse_cons, List.append_assoc, List.singleton_append,
    List.dropWhile_append, ends, trimEnd]
  split
  next blank => simp [List.isEmpty_iff.mp blank]
  next => simp

theorem trimEnd_prefix (text : List Char) : trimEnd text <+: text := by
  have kept_prefix := List.reverse_prefix.mpr (List.dropWhile_suffix isBlank (l := text.reverse))
  rwa [List.reverse_reverse] at kept_prefix

/-- What is left of a text begins as the text does. -/
theorem eq_of_mem_head?_trimEnd {text : List Char} {a c : Char}
    (first : c ∈ (trimEnd (a :: text)).head?) : c = a := by
  obtain ⟨kept, kept_eq⟩ := List.head?_eq_some_iff.mp first
  have kept_prefix := trimEnd_prefix (a :: text)
  rw [kept_eq] at kept_prefix
  exact (List.cons_prefix_cons.mp kept_prefix).1

theorem mem_of_mem_trimEnd {text : List Char} {c : Char} (member : c ∈ trimEnd text) : c ∈ text :=
  List.mem_reverse.mp ((List.dropWhile_subset _) (List.mem_reverse.mp member))

/-- A line with a character that is no blank is kept up to there. -/
theorem exists_mem_tidy {lines : List (List Char)} {front back : List Char} {c : Char}
    (member : front ++ c :: back ∈ lines) (visible : isBlank c = false) :
    ∃ kept, front ++ c :: kept ∈ tidy lines := by
  have trim_eq := trimEnd_append_visible front back visible
  refine ⟨trimEnd back, List.mem_filter.mpr ⟨List.mem_map.mpr ⟨_, member, trim_eq⟩, ?_⟩⟩
  simp

/-- A piece of text that ends visibly and has no line feed in it is on one line: it goes on with the
last line of what is in front of it, and what is behind it goes on with that line. -/
theorem tidyLines_append_piece {front back lead rest : List Char} {piece : List Char} {c : Char}
    {earlier later : List (List Char)} (front_eq : lines front = earlier ++ [lead])
    (back_eq : lines back = rest :: later) (unbroken : '\n' ∉ piece ++ [c])
    (visible : isBlank c = false) :
    tidyLines (front ++ ((piece ++ [c]) ++ back)) =
      tidy earlier ++ (lead ++ (piece ++ [c]) ++ trimEnd rest) :: tidy later := by
  have piece_eq : segments '\n' ((piece ++ [c]) ++ back) = ((piece ++ [c]) ++ rest) :: later :=
    segments_append (show _ = [] ++ [piece ++ [c]] from segments_of_notMem unbroken) back_eq
  have line_eq : tidy [lead ++ ((piece ++ [c]) ++ rest)] =
      [lead ++ (piece ++ [c]) ++ trimEnd rest] := by
    have trim_eq := trimEnd_append_visible (lead ++ piece) rest visible
    rw [tidy, List.map_singleton,
      show lead ++ ((piece ++ [c]) ++ rest) = (lead ++ piece) ++ c :: rest by simp, trim_eq]
    simp
  rw [tidyLines_eq_tidy, lines, segments_append front_eq piece_eq, tidy_append, tidy_cons, line_eq,
    List.singleton_append]

theorem tidyLines_of_notMem {line : List Char} (unbroken : '\n' ∉ line) :
    tidyLines line = tidy [line] := by
  rw [tidyLines_eq_tidy, lines, segments_of_notMem unbroken]

/-- A blank at the end of a line is dropped. -/
theorem tidyLines_append_blank {line : List Char} {c : Char} (unbroken : '\n' ∉ line)
    (blank : isBlank c = true) (apart : '\n' ≠ c) : tidyLines (line ++ [c]) = tidy [line] := by
  rw [tidyLines_of_notMem (by simp [unbroken, apart]), tidy, List.map_singleton,
    trimEnd_append_blank line blank]
  rfl

/-- The tidy lines of a text with a line feed are those in front of it and those behind it. -/
theorem tidyLines_append_newline (front back : List Char) :
    tidyLines (front ++ '\n' :: back) = tidyLines front ++ tidyLines back := by
  rw [tidyLines_eq_tidy, lines, segments_append_separator, tidy_append]
  rfl

@[simp] theorem tidyLines_nil : tidyLines [] = [] := rfl

@[simp] theorem tidyLines_newline (text : List Char) : tidyLines ('\n' :: text) = tidyLines text :=
  tidyLines_append_newline [] text

/-- Whether a text has nothing to add to the line it comes behind. -/
def OpensLine (text : List Char) : Prop :=
  ∀ c ∈ text.head?, c = '\n'

theorem OpensLine.append {front back : List Char} (opens : OpensLine front)
    (later_opens : OpensLine back) : OpensLine (front ++ back) := by
  cases front with
  | nil => exact later_opens
  | cons c front => exact opens

theorem tidyLines_append {front back : List Char} (opens : OpensLine back) :
    tidyLines (front ++ back) = tidyLines front ++ tidyLines back := by
  cases back with
  | nil => rw [List.append_nil, tidyLines_nil, List.append_nil]
  | cons c back =>
    obtain rfl : c = '\n' := opens c rfl
    rw [tidyLines_append_newline, tidyLines_newline]

theorem OpensLine.flatMap {α : Type} {text : α → List Char} {l : List α}
    (opens : ∀ a ∈ l, OpensLine (text a)) : OpensLine (l.flatMap text) := by
  induction l with
  | nil => rintro c ⟨⟩
  | cons a l induction =>
    obtain ⟨first, later⟩ := List.forall_mem_cons.mp opens
    exact first.append (induction later)

/-- Where each of several texts opens a line, all of them together have the lines of each. -/
theorem tidyLines_flatMap {α : Type} {text : α → List Char} {lines : α → List (List Char)}
    {l : List α} (opens : ∀ a ∈ l, OpensLine (text a))
    (lines_eq : ∀ a ∈ l, tidyLines (text a) = tidy (lines a)) :
    tidyLines (l.flatMap text) = tidy (l.flatMap lines) := by
  induction l with
  | nil => rfl
  | cons a l induction =>
    obtain ⟨-, later_opens⟩ := List.forall_mem_cons.mp opens
    obtain ⟨first_eq, later_eq⟩ := List.forall_mem_cons.mp lines_eq
    rw [List.flatMap_cons, tidyLines_append (.flatMap later_opens), first_eq,
      induction later_opens later_eq, List.flatMap_cons, tidy_append]

/-- No tidy line goes over into another. -/
theorem notMem_of_mem_tidyLines {text line : List Char} (member : line ∈ tidyLines text) :
    '\n' ∉ line := by
  obtain ⟨whole, inside, rfl⟩ := List.mem_map.mp (List.mem_filter.mp member).1
  exact fun feed => notMem_of_mem_segments inside (mem_of_mem_trimEnd feed)

end BusScript.Text
