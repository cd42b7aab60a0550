import BusScript.Proofs.Execution.Unfolding
import BusScript.Proofs.Script.Acceptance
import BusScript.Proofs.Session

/-!
# Repeat counts written out

A literal, a read or a sampled bit with a repeat count can be written as often as the count says,
without the count. The line with the copies compiles to the same instructions, except that the one
with the count is there as often as it asks for, and takes as many slots.
-/

namespace BusScript

namespace Token

/-- The repeat count of a token every repeat of which is carried out on its own, if it has one. -/
def count? : Token → Option Nat
  | .value _ attributes => attributes.repeats
  | .command _ op attributes => if op.expandsRepeat then attributes.repeats else none
  | .text _ => none

/-- The token without its repeat count. -/
def once : Token → Token
  | .value l attributes => .value l { attributes with repeats := none }
  | .command symbol op attributes => .command symbol op { attributes with repeats := none }
  | .text chars => .text chars

/-- A token with a repeat count stands for one instruction with that count, and without the count
for the same instruction without it. -/
theorem denote_of_count? {t : Token} {n : Nat} (counted : t.count? = some n)
    (settings : Settings) :
    ∃ i, t.denote settings = [i] ∧ t.once.denote settings = [i.once] ∧
      i.op.expandsRepeat = true ∧ i.repeats = max n 1 := by
  cases t with
  | value l attributes =>
    have repeats_eq : attributes.repeats = some n := counted
    exact ⟨_, rfl, rfl, rfl, by rw [repeats_eq, Option.getD_some]⟩
  | command symbol op attributes =>
    rw [count?] at counted
    split at counted
    next expands => exact ⟨_, rfl, rfl, expands, by rw [counted, Option.getD_some]⟩
    next => contradiction
  | text chars => contradiction

/-- Copies of a token in place of its repeat count stand for an unfolded program. -/
theorem unfolds_denote {t : Token} {n : Nat} (counted : t.count? = some n) (settings : Settings)
    (front behind : List Token) :
    Program.Unfolds ((front ++ t :: behind).flatMap (denote settings))
      ((front ++ (List.replicate (max n 1) t.once ++ behind)).flatMap (denote settings)) := by
  obtain ⟨i, denote_eq, denote_once_eq, expands, repeats_eq⟩ := denote_of_count? counted settings
  have copies_eq : (List.replicate (max n 1) t.once).flatMap (denote settings) =
      List.replicate i.repeats i.once := by
    rw [List.flatMap_replicate, denote_once_eq, List.flatten_replicate_singleton, repeats_eq]
  rw [List.flatMap_append, List.flatMap_append, List.flatMap_append, List.flatMap_cons, denote_eq,
    copies_eq]
  refine .intro expands ?_
  rw [repeats_eq]
  exact Nat.le_max_right n 1

theorem Fits.once {settings : Settings} {t : Token} (fits : t.Fits settings) :
    t.once.Fits settings := by
  cases t with
  | value l attributes => exact ⟨by simp, fits.bits_fit⟩
  | command symbol op attributes => exact ⟨by simp, fits.bits_fit⟩
  | text chars => trivial

theorem PinFree.once {role : Nat → PinRole} {t : Token} (free : t.PinFree role) :
    t.once.PinFree role := by
  cases t with
  | value l attributes => trivial
  | command symbol op attributes => exact free
  | text chars => trivial

end Token

/-- One line writes a repeat count of another out. In place of a token with the count, and of what
separates it from the token in front, there are as many copies of it without the count as it counts
for. Separators keep these apart from each other, from the token in front and from what is behind.
-/
inductive WritesOut : List Char → List Char → Prop
  | intro {front : List Token} {t : Token} {n : Nat} {before gap word after copies : List Char}
      (beginning : IsBeginning IsScript.Longest (gap ++ (word ++ after)) front before)
      (separates : ∀ c ∈ gap, isSeparator c = true) (spelled : t.Spelled word)
      (longest : IsScript.Longest word after) (counted : t.count? = some n)
      (written : IsBeginning IsScript.Apart after (List.replicate (max n 1) t.once) copies)
      (set_apart : front = [] ∨ ∀ c ∈ copies.head?, isSeparator c = true) :
      WritesOut (before ++ (gap ++ (word ++ after))) (before ++ (copies ++ after))

/-- A line that writes a count out compiles to a program that unfolds that of the other. -/
theorem WritesOut.exists_unfolds {text other : List Char} (writes_out : WritesOut text other)
    {settings : Settings} {role : Nat → PinRole} {line written : Cursor} {p : Program}
    (text_eq : line.rest = text) (other_eq : written.rest = other)
    (compiled : (line.compile settings role).1.result = .ok p) :
    ∃ q, (written.compile settings role).1.result = .ok q ∧ p.Unfolds q := by
  obtain ⟨beginning, separates, spelled, longest, counted, written, set_apart⟩ := writes_out
  rename_i front t n before gap word after copies
  obtain ⟨all, script, valid, room, p_eq⟩ := reads_of_compileFrom compiled
  obtain rfl : p = all.flatMap (Token.denote settings) := p_eq
  rw [show line.input.rest = _ from text_eq] at script
  obtain ⟨later, rfl, reads, script⟩ := beginning.exists_later script
  obtain ⟨behind, rfl, -, script⟩ :=
    (script.of_separators separates).exists_of_longest spelled longest
  let tokens := front ++ (List.replicate (max n 1) t.once ++ behind)
  have unfolds := Token.unfolds_denote counted settings front behind
  have written_script : IsScript IsScript.Read tokens (before ++ (copies ++ after)) := by
    refine (reads.of_clear (set_apart.imp_right fun apart => ?_)).append
      (written.reads_of_apart.append script)
    have some_copy : List.replicate (max n 1) t.once ≠ [] := by
      rw [Ne, List.replicate_eq_nil_iff]
      omega
    refine clear_of_isSeparator fun c c_eq => apart c ?_
    rwa [List.head?_append_of_ne_nil _ (written.ne_nil some_copy)] at c_eq
  have written_valid : ∀ t ∈ tokens, t.Fits settings ∧ t.PinFree role := by
    obtain ⟨front_valid, valid⟩ := List.forall_mem_append.mp valid
    obtain ⟨⟨fits, free⟩, behind_valid⟩ := List.forall_mem_cons.mp valid
    refine List.forall_mem_append.mpr ⟨front_valid, List.forall_mem_append.mpr ⟨?_, behind_valid⟩⟩
    intro copy member
    rw [List.eq_of_mem_replicate member]
    exact ⟨fits.once, free.once⟩
  have written_room : Draft.Room settings {} (tokens.flatMap (Token.denote settings)) := by
    rcases room with nil_eq | slots_lt
    · exact absurd nil_eq unfolds.ne_nil.1
    · refine .inr ?_
      rwa [unfolds.slots_eq]
  exact ⟨_, compileFrom_of_reads written_script other_eq written_valid written_room, unfolds⟩

/-- Repeat counts are shorthand: written out in full, a line gives the same text and a trace with
the same entries but for their repeat counts, and leaves the same behind. -/
theorem Session.run_of_writesOut {β : Type} [Board β] {s : Session} {line written : Cursor}
    {p : Program} (writes_out : WritesOut line.rest written.rest)
    (compiled : (line.compile s.settings s.pins.role).1.result = .ok p) (bus : SimulatedBus)
    (board : β) :
    ∃ out other, (s.run line bus board).result = .ok out ∧
      (s.run written bus board).result = .ok other ∧ out.program = p ∧
      (written.compile s.settings s.pins.role).1.result = .ok other.program ∧
      other.program.slots = p.slots ∧ other.text = out.text ∧
      List.Forall₂ Instruction.EqButCount out.trace.entries.toList other.trace.entries.toList ∧
      other.trace.halted = out.trace.halted ∧
      (s.run written bus board).session = (s.run line bus board).session ∧
      (s.run written bus board).driver = (s.run line bus board).driver ∧
      (s.run written bus board).board = (s.run line bus board).board := by
  obtain ⟨q, written_compiled, unfolds⟩ := writes_out.exists_unfolds rfl rfl compiled
  have budgeted := Cursor.budgeted_of_compile s.valid compiled
  have written_budgeted := Cursor.budgeted_of_compile s.valid written_compiled
  obtain ⟨alike, bench_eq⟩ := unfolds.run_alike SimulatedBus.ignoresCounts budgeted
    written_budgeted (s.bench bus board)
  have ran := Session.ran_of_compile bus board compiled unfolds.ne_nil.1
  have written_ran := Session.ran_of_compile bus board written_compiled unfolds.ne_nil.2
  refine ⟨_, _, ran.result_eq, written_ran.result_eq, rfl, written_compiled, unfolds.slots_eq,
    Report.render_eq_of_alike alike s.settings, alike.imp fun _ _ same => same.eq_withCount,
    Trace.halted_eq_of_alike alike, ?_, ?_, ?_⟩
  · rw [ran.session_eq, written_ran.session_eq, bench_eq]
  · rw [ran.driver_eq, written_ran.driver_eq, bench_eq]
  · rw [ran.board_eq, written_ran.board_eq, bench_eq]

/-- Two reads on a bus without devices, with a count and written out. -/
theorem Session.run_two_reads_written_out :
    let s : Session :=
      { settings := {}, valid := Settings.fault?_eq_none_iff.mp rfl, pins := .free 8, tally := ∅ }
    let line : Cursor := { line := ['[', 'r', ':', '2', ']'] }
    let written : Cursor := { line := ['[', ' ', 'r', ' ', 'r', ' ', ']'] }
    let bus : SimulatedBus := .i2c {}
    let board := SimulatedBoard.ofCount 8
    WritesOut line.rest written.rest ∧
      (line.compile s.settings s.pins.role).1.result =
        .ok [{ op := .start }, { op := .read, repeats := 2, hasRepeats := true }, { op := .stop }] ∧
      ∃ out other, (s.run line bus board).result = .ok out ∧
        (s.run written bus board).result = .ok other ∧ other.program.slots = 4 ∧
        other.text = out.text ∧
        List.Forall₂ Instruction.EqButCount out.trace.entries.toList
          other.trace.entries.toList := by
  intro s line written bus board
  let start : Token := .command '[' .start {}
  let read : Token := .command 'r' .read { repeats := some 2 }
  have start_spelled : start.Spelled ['['] := .command rfl .done
  have once_spelled : read.once.Spelled ['r'] := .command rfl .done
  have two_spelled : Literal.Spelled ⟨2, .dec⟩ ([] ++ ['2']) :=
    .intro .dec ⟨List.cons_ne_nil _ _, [2], .cons ⟨by decide, .inl rfl⟩ .nil, rfl⟩
  have read_spelled : read.Spelled ['r', ':', '2'] :=
    .command rfl (.repeats rfl ⟨_, two_spelled, rfl⟩ .done)
  have start_longest : IsScript.Longest ['['] ['r', ':', '2', ']'] :=
    (IsScript.Read.of_read start_spelled (i := line.input) rfl rfl).longest
  have read_longest : IsScript.Longest ['r', ':', '2'] [']'] :=
    (IsScript.Read.of_read read_spelled (i := line.input.advance 1) rfl (by decide)).longest
  have blank : isSeparator ' ' = true := by decide
  have apart (text : List Char) : IsScript.Apart ['r'] (' ' :: text) := by
    rintro c ⟨⟩
    exact blank
  have beginning : IsBeginning IsScript.Longest ([] ++ (['r', ':', '2'] ++ [']'])) [start] ['['] :=
    .token start_spelled start_longest .nil
  have copied : IsBeginning IsScript.Apart [']'] (List.replicate 2 read.once)
      [' ', 'r', ' ', 'r', ' '] :=
    .separator blank (.token once_spelled (apart _)
      (.separator blank (.token once_spelled (apart _) (.separator blank .nil))))
  have writes_out : WritesOut line.rest written.rest := by
    refine .intro beginning (by simp) read_spelled read_longest rfl copied (.inr ?_)
    rintro c ⟨⟩
    exact blank
  have compiled : (line.compile s.settings s.pins.role).1.result =
      .ok [{ op := .start }, { op := .read, repeats := 2, hasRepeats := true },
        { op := .stop }] := by
    cbv
  obtain ⟨out, other, ran, written_ran, -, -, slots_eq, text_eq, alike, -⟩ :=
    run_of_writesOut writes_out compiled bus board
  exact ⟨writes_out, compiled, out, other, ran, written_ran, slots_eq, text_eq, alike⟩

end BusScript
