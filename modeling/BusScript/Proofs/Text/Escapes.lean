import BusScript.Proofs.Text.Lines
import BusScript.Report.Palette
import Mathlib.Data.List.Forall2

/-!
# Escape sequences in a text

A text that is decorated with the escape sequences of a terminal: each of them touches a character
that is no blank, in front of it or behind. For such a text it makes no difference whether it is cut
into tidy lines before or after the sequences are deleted.
-/

namespace BusScript

/-- The escape sequences of a palette. -/
inductive Escape where
  | info
  | notice
  | number
  | reset
deriving DecidableEq, Repr

/-- The sequence that a terminal is sent. -/
def Escape.text : Escape → List Char
  | info => Palette.terminal.info
  | notice => Palette.terminal.notice
  | number => Palette.terminal.number
  | reset => Palette.terminal.reset

/-- The escape sequences of a palette, each as a text. -/
def Palette.sequences (p : Palette) : List (List Char) :=
  [p.info, p.notice, p.number, p.reset]

namespace Text

/-- Deletes every occurrence of some words, from left to right. -/
def erase (words : List (List Char)) : List Char → List Char
  | [] => []
  | c :: text =>
    match words.find? fun word => !word.isEmpty && word.isPrefixOf (c :: text) with
    | none => c :: erase words text
    | some word => erase words (text.drop (word.length - 1))
termination_by text => text.length
decreasing_by
  · exact Nat.lt_succ_self _
  · rw [List.length_drop, List.length_cons]
    omega

/-- What stands in a line besides blanks and does not begin an escape sequence. -/
structure IsPrinted (c : Char) : Prop where
  visible : isBlank c = false
  no_escape : c ≠ '\x1b'

/-- The first text is the second with escape sequences put in, each of them next to a printed
character. -/
inductive Decorates : List Char → List Char → Prop
  | nil : Decorates [] []
  | blank {c : Char} {text plain : List Char} (blank : isBlank c = true)
      (later : Decorates text plain) : Decorates (c :: text) (c :: plain)
  | printed {c : Char} {text plain : List Char} (before after : List Escape) (printed : IsPrinted c)
      (later : Decorates text plain) :
      Decorates (before.flatMap Escape.text ++ c :: (after.flatMap Escape.text ++ text))
        (c :: plain)

namespace Decorates

variable {text plain front other : List Char}

theorem append (first : Decorates front other) (second : Decorates text plain) :
    Decorates (front ++ text) (other ++ plain) := by
  induction first with
  | nil => exact second
  | blank blank _ induction => exact .blank blank induction
  | printed before after printed _ induction =>
    simpa using Decorates.printed before after printed induction

/-- A text without escape sequences decorates itself. -/
theorem refl (no_escape : '\x1b' ∉ text) : Decorates text text := by
  induction text with
  | nil => exact .nil
  | cons c text induction =>
    rw [List.mem_cons, not_or] at no_escape
    cases visible : isBlank c with
    | true => exact .blank visible (induction no_escape.2)
    | false => exact .printed [] [] ⟨visible, Ne.symm no_escape.1⟩ (induction no_escape.2)

theorem escape_notMem (decorates : Decorates text plain) : '\x1b' ∉ plain := by
  induction decorates with
  | nil => exact List.not_mem_nil
  | blank blank _ induction =>
    rw [List.mem_cons, not_or]
    refine ⟨?_, induction⟩
    rintro rfl
    contradiction
  | printed _ _ printed _ induction =>
    rw [List.mem_cons, not_or]
    exact ⟨Ne.symm printed.no_escape, induction⟩

theorem eq_nil_iff (decorates : Decorates text plain) : text = [] ↔ plain = [] := by
  cases decorates <;> simp

/-- A sequence in front of a printed character. -/
theorem escape_append {c : Char} (e : Escape) (decorates : Decorates text (c :: plain))
    (visible : isBlank c = false) : Decorates (e.text ++ text) (c :: plain) := by
  cases decorates with
  | blank blank =>
    rw [visible] at blank
    contradiction
  | printed before after printed later =>
    simpa using Decorates.printed (e :: before) after printed later

/-- A sequence behind a printed character. -/
theorem append_escape {c : Char} (decorates : Decorates text (plain ++ [c])) (e : Escape)
    (visible : isBlank c = false) : Decorates (text ++ e.text) (plain ++ [c]) := by
  generalize whole_eq : plain ++ [c] = whole at decorates
  induction decorates generalizing plain with
  | nil => simp at whole_eq
  | blank blank later induction =>
    cases plain with
    | nil =>
      obtain ⟨rfl, -⟩ := List.cons.inj whole_eq
      rw [visible] at blank
      contradiction
    | cons d plain => exact .blank blank (induction (List.cons.inj whole_eq).2)
  | @printed d text rest before after printed later induction =>
    cases plain with
    | nil =>
      obtain ⟨rfl, rfl⟩ := List.cons.inj whole_eq
      obtain rfl := later.eq_nil_iff.mpr rfl
      simpa using Decorates.printed before (after ++ [e]) printed .nil
    | cons _ plain =>
      have behind := induction (List.cons.inj whole_eq).2
      simpa using Decorates.printed before after printed behind

end Decorates

/-! ### Lines -/

theorem isBlank_of_mem_text {e : Escape} {c : Char} (member : c ∈ e.text) : isBlank c = false := by
  have visible : (e.text.all fun c => !isBlank c) = true := by cases e <;> decide
  simpa using List.all_eq_true.mp visible c member

theorem isBlank_of_mem_flatMap_text {escapes : List Escape} {c : Char}
    (member : c ∈ escapes.flatMap Escape.text) : isBlank c = false := by
  obtain ⟨e, -, inside⟩ := List.mem_flatMap.mp member
  exact isBlank_of_mem_text inside

theorem trimEnd_cons_blank {c : Char} (blank : isBlank c = true) (text : List Char) :
    trimEnd (c :: text) = if trimEnd text = [] then [] else c :: trimEnd text := by
  have nothing_iff : trimEnd text = [] ↔ (text.reverse.dropWhile isBlank).isEmpty = true := by
    rw [trimEnd, List.reverse_eq_nil_iff, List.isEmpty_iff]
  rw [trimEnd, List.reverse_cons, List.dropWhile_append, List.dropWhile_cons_of_pos blank]
  simp only [nothing_iff]
  split
  next => rfl
  next =>
    rw [List.reverse_append]
    rfl

theorem trimEnd_append_of_forall {front : List Char} (visible : ∀ c ∈ front, isBlank c = false)
    (back : List Char) : trimEnd (front ++ back) = front ++ trimEnd back := by
  induction front with
  | nil => rfl
  | cons c front induction =>
    obtain ⟨first, visible⟩ := List.forall_mem_cons.mp visible
    have kept := trimEnd_append_visible [] (front ++ back) first
    rw [List.cons_append, List.cons_append, ← induction visible]
    exact kept

namespace Decorates

variable {text plain : List Char}

/-- Blanks at the end of a line are behind all escape sequences. -/
theorem trimEnd (decorates : Decorates text plain) :
    Decorates (Text.trimEnd text) (Text.trimEnd plain) := by
  induction decorates with
  | nil => exact .nil
  | @blank c text plain blank _ induction =>
    rw [trimEnd_cons_blank blank, trimEnd_cons_blank blank]
    simp only [induction.eq_nil_iff]
    split
    next => exact .nil
    next => exact .blank blank induction
  | @printed c text plain before after printed later induction =>
    have visible : ∀ d ∈ before.flatMap Escape.text ++ c :: after.flatMap Escape.text,
        isBlank d = false := by
      intro d member
      rcases List.mem_append.mp member with inside | inside
      · exact isBlank_of_mem_flatMap_text inside
      · rcases List.mem_cons.mp inside with rfl | inside
        · exact printed.visible
        · exact isBlank_of_mem_flatMap_text inside
    have kept : Text.trimEnd (c :: plain) = c :: Text.trimEnd plain :=
      trimEnd_append_of_forall (List.forall_mem_singleton.mpr printed.visible) plain
    rw [← List.cons_append, ← List.append_assoc, trimEnd_append_of_forall visible, kept,
      List.append_assoc, List.cons_append]
    exact .printed before after printed induction

/-- No escape sequence goes over into another line. -/
theorem lines (decorates : Decorates text plain) :
    List.Forall₂ Decorates (Text.lines text) (Text.lines plain) := by
  induction decorates with
  | nil => exact .cons .nil .nil
  | @blank c text plain blank _ induction =>
    by_cases ordinary : c = '\n'
    · subst ordinary
      rw [Text.lines, Text.lines, segments_cons_self, segments_cons_self]
      exact .cons .nil induction
    · obtain ⟨line, later, lines_eq⟩ := exists_segments '\n' text
      obtain ⟨plainLine, plainLater, plain_eq⟩ := exists_segments '\n' plain
      rw [Text.lines, Text.lines, lines_eq, plain_eq] at induction
      rw [Text.lines, Text.lines, segments_cons_of_ne ordinary lines_eq,
        segments_cons_of_ne ordinary plain_eq]
      cases induction with
      | cons first later => exact .cons (.blank blank first) later
  | @printed c text plain before after printed _ induction =>
    have unbroken {front : List Char} (visible : ∀ d ∈ front, isBlank d = false) : '\n' ∉ front :=
      fun feed => absurd (visible _ feed) (by decide)
    have before_unbroken : '\n' ∉ before.flatMap Escape.text :=
      unbroken fun _ => isBlank_of_mem_flatMap_text
    have after_unbroken : '\n' ∉ after.flatMap Escape.text :=
      unbroken fun _ => isBlank_of_mem_flatMap_text
    have ordinary : c ≠ '\n' := by
      rintro rfl
      exact absurd printed.visible (by decide)
    obtain ⟨line, later, lines_eq⟩ := exists_segments '\n' text
    obtain ⟨plainLine, plainLater, plain_eq⟩ := exists_segments '\n' plain
    rw [Text.lines, Text.lines, lines_eq, plain_eq] at induction
    have after_eq : segments '\n' (after.flatMap Escape.text) = [] ++ [after.flatMap Escape.text] :=
      segments_of_notMem after_unbroken
    have before_eq :
        segments '\n' (before.flatMap Escape.text) = [] ++ [before.flatMap Escape.text] :=
      segments_of_notMem before_unbroken
    have whole_eq := segments_append before_eq
      (segments_cons_of_ne ordinary (segments_append after_eq lines_eq))
    rw [Text.lines, Text.lines, whole_eq, segments_cons_of_ne ordinary plain_eq]
    cases induction with
    | cons first later => exact .cons (.printed before after printed first) later

end Decorates

theorem decorates_tidy {texts plains : List (List Char)}
    (decorate : List.Forall₂ Decorates texts plains) :
    List.Forall₂ Decorates (tidy texts) (tidy plains) := by
  induction decorate with
  | nil => exact .nil
  | @cons text plain texts plains first _ induction =>
    rw [tidy_cons, tidy_cons plain]
    refine List.rel_append ?_ induction
    have kept := first.trimEnd
    by_cases nothing : Text.trimEnd text = []
    · simp [tidy, nothing, kept.eq_nil_iff.mp nothing]
    · have some_plain : Text.trimEnd plain ≠ [] := nothing ∘ kept.eq_nil_iff.mpr
      simpa [tidy, nothing, some_plain] using kept

/-- A decorated text has decorated tidy lines. -/
theorem Decorates.tidyLines {text plain : List Char} (decorates : Decorates text plain) :
    List.Forall₂ Decorates (tidyLines text) (tidyLines plain) :=
  decorates_tidy decorates.lines

theorem decorates_unlines {texts plains : List (List Char)}
    (decorate : List.Forall₂ Decorates texts plains) :
    Decorates (unlines texts) (unlines plains) := by
  induction decorate with
  | nil => exact .nil
  | cons first later induction =>
    cases later with
    | nil =>
      rw [unlines, unlines, List.intercalate_singleton, List.intercalate_singleton]
      exact first
    | cons second later =>
      rw [unlines, unlines, List.intercalate_cons_cons, List.intercalate_cons_cons]
      exact (first.append (.refl (by decide))).append induction

/-! ### Deleting the sequences -/

/-- The sequences of a terminal, character by character. -/
theorem sequences_terminal : Palette.terminal.sequences =
    [['\x1b', '[', '3', '8', ';', '5', ';', '1', '7', '8', 'm'],
      ['\x1b', '[', '3', '8', ';', '5', ';', '1', '0', '9', 'm'],
      ['\x1b', '[', '3', '8', ';', '5', ';', '1', '0', '3', 'm'], ['\x1b', '[', '0', 'm']] := by
  decide

/-- No sequence begins with another, so that each is found where it stands. -/
theorem erase_text_append (e : Escape) (text : List Char) :
    erase Palette.terminal.sequences (e.text ++ text) = erase Palette.terminal.sequences text := by
  have texts_eq := sequences_terminal
  simp only [Palette.sequences, List.cons.injEq] at texts_eq
  obtain ⟨info_eq, notice_eq, number_eq, reset_eq, -⟩ := texts_eq
  rw [sequences_terminal]
  cases e with
  | info =>
    rw [Escape.text, info_eq, List.cons_append, erase]
    simp
  | notice =>
    rw [Escape.text, notice_eq, List.cons_append, erase]
    simp
  | number =>
    rw [Escape.text, number_eq, List.cons_append, erase]
    simp
  | reset =>
    rw [Escape.text, reset_eq, List.cons_append, erase]
    simp

theorem erase_cons_of_ne {c : Char} (no_escape : c ≠ '\x1b') (text : List Char) :
    erase Palette.terminal.sequences (c :: text) = c :: erase Palette.terminal.sequences text := by
  rw [sequences_terminal, erase]
  simp [no_escape.symm]

/-- Without its escape sequences a decorated text is plain. -/
theorem Decorates.erase_eq {text plain : List Char} (decorates : Decorates text plain) :
    erase Palette.terminal.sequences text = plain := by
  have erase_flatMap (escapes : List Escape) (text : List Char) :
      erase Palette.terminal.sequences (escapes.flatMap Escape.text ++ text) =
        erase Palette.terminal.sequences text := by
    induction escapes with
    | nil => rfl
    | cons e escapes induction =>
      rw [List.flatMap_cons, List.append_assoc, erase_text_append, induction]
  induction decorates with
  | nil => rw [erase]
  | @blank c text plain blank _ induction =>
    have no_escape : c ≠ '\x1b' := by
      rintro rfl
      contradiction
    rw [erase_cons_of_ne no_escape, induction]
  | printed before after printed _ induction =>
    rw [erase_flatMap, erase_cons_of_ne printed.no_escape, erase_flatMap, induction]

end Text

end BusScript
