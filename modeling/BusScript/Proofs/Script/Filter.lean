import BusScript.Proofs.Execution.Budget
import BusScript.Proofs.Pin.Ownership
import BusScript.Proofs.Script.Refusal

/-!
# What the capacity and the owners of pins decide

The capacity and the owners of the pins decide whether a line is accepted and never what it compiles
to. A line compiles to what it would compile to if all pins were free and there were slots without
end, provided that this takes fewer slots than there are and claims only pins that are free.
-/

namespace BusScript

open IsScript

/-- The same settings with another number of slots. -/
def Settings.withCapacity (settings : Settings) (slots : Nat) : Settings :=
  { settings with capacity := slots }

/-- Whether there is a fault other than a pin in use is no matter of who owns the pins. -/
theorem Attributes.Fault.pinInUse_or {settings : Settings} {role : Nat → PinRole} {symbol : Char}
    {op : Operation} {position : Nat} {a : Attributes} {reason : Rejection}
    (fault : a.Fault settings role symbol op position reason) (slots : Nat)
    (other : Nat → PinRole) :
    (∃ pin, reason = .pinInUse pin position) ∨
      a.Fault (settings.withCapacity slots) other symbol op position reason := by
  cases fault with
  | repeats given large => exact .inr (.repeats given large)
  | missing repeats_le uses no_pin => exact .inr (.missing repeats_le uses no_pin)
  | invalid repeats_le uses given beyond => exact .inr (.invalid repeats_le uses given beyond)
  | inUse => exact .inl ⟨_, rfl⟩
  | width repeats_le uses_none given outside =>
    exact .inr (.width repeats_le uses_none given outside)

namespace Token

variable {settings : Settings}

theorem slots_flatMap_charWrites_le (settings : Settings) (chars : List Char) :
    Program.slots (chars.flatMap (charWrites settings)) ≤ 4 * chars.length := by
  induction chars with
  | nil => exact Nat.le_refl 0
  | cons c chars induction =>
    have bytes_le : (charWrites settings c).length ≤ 4 := by
      rw [charWrites, List.length_map, String.length_utf8EncodeChar]
      exact c.utf8Size_le_four
    rw [List.flatMap_cons, Program.slots_append, slots_charWrites, List.length_cons]
    omega

/-- A token takes at most as many slots for each of its characters as it can have repeats. -/
theorem slots_denote_le {t : Token} {text : List Char} (spelled : t.Spelled text)
    (fits : t.Fits settings) : Program.slots (t.denote settings) ≤ 65535 * text.length := by
  have once (op : Operation) {a : Attributes} (repeats_le : ∀ n ∈ a.repeats, n ≤ 65535) :
      op.slotCost (max (a.repeats.getD 1) 1) ≤ 65535 := by
    rw [Operation.slotCost]
    split
    · decide
    · cases repeats : a.repeats with
      | none => decide
      | some n =>
        have := repeats_le n repeats
        rw [Option.getD_some]
        omega
  have one_char : 65535 ≤ 65535 * text.length := by
    obtain ⟨c, more, rfl, -⟩ := spelled.exists_head
    rw [List.length_cons]
    omega
  cases spelled with
  | value => exact Nat.le_trans (once .write (Attributes.Fit.repeats_le fits)) one_char
  | @command _ op => exact Nat.le_trans (once op (Attributes.Fit.repeats_le fits)) one_char
  | @text chars =>
    have four := slots_flatMap_charWrites_le settings chars
    rw [denote_text]
    simp only [List.length_cons, List.length_append]
    omega

@[simp] theorem denote_withCapacity (settings : Settings) (slots : Nat) :
    denote (settings.withCapacity slots) = denote settings := by
  funext t
  cases t <;> rfl

theorem Fits.withCapacity {t : Token} (fits : t.Fits settings) (slots : Nat) :
    t.Fits (settings.withCapacity slots) := by
  have moved {op : Operation} {a : Attributes} (fit : a.Fit settings op) :
      a.Fit (settings.withCapacity slots) op := ⟨fit.repeats_le, fit.bits_fit⟩
  cases t with
  | value => exact moved fits
  | command => exact moved fits
  | text => trivial

@[simp] theorem fits_withCapacity {t : Token} {slots : Nat} :
    t.Fits (settings.withCapacity slots) ↔ t.Fits settings :=
  ⟨fun fits => fits.withCapacity settings.capacity, fun fits => fits.withCapacity slots⟩

theorem pinFree_of_denote {role : Nat → PinRole} {t : Token}
    (free : ∀ i ∈ t.denote settings, i.op.claimsPin = true → role i.pin = .io) :
    t.PinFree role := by
  cases t with
  | value => trivial
  | command symbol op a =>
    intro claims pin given
    have pin_free := free _ List.mem_cons_self claims
    simpa [Operation.usesPin_of_claimsPin claims, Option.mem_def.mp given] using pin_free
  | text => trivial

theorem Fault.pinInUse_or {role : Nat → PinRole} {c : Char} {position : Nat} {reason : Rejection}
    {t : Token} (fault : t.Fault settings role c position reason) (slots : Nat)
    (other : Nat → PinRole) :
    (∃ pin, reason = .pinInUse pin position) ∨
      t.Fault (settings.withCapacity slots) other c position reason := by
  cases t with
  | value => exact Attributes.Fault.pinInUse_or fault slots other
  | command => exact Attributes.Fault.pinInUse_or fault slots other
  | text => exact .inr fault

end Token

theorem FailsAt.pinInUse_or {settings : Settings} {role : Nat → PinRole} {reason : Rejection}
    {c : Char} {i : Input} (fails : FailsAt settings role reason c i) (slots : Nat)
    (other : Nat → PinRole) :
    (∃ pin position, reason = .pinInUse pin position) ∨
      FailsAt (settings.withCapacity slots) other reason c i := by
  cases fails with
  | unread read_eq reason_eq => exact .inr (.unread read_eq reason_eq)
  | unfit read_eq fault =>
    rcases fault.pinInUse_or slots other with ⟨pin, reason_eq⟩ | fault
    · exact .inl ⟨pin, _, reason_eq⟩
    · exact .inr (.unfit read_eq fault)

namespace Cursor

variable {settings : Settings} {role : Nat → PinRole} {line : Cursor} {slots : Nat} {p : Program}

/-- A number that is larger than every total of slots on the way through a line: what any beginning
of the line stands for takes fewer slots, provided that its tokens are in range. -/
def Ample (settings : Settings) (line : Cursor) (slots : Nat) : Prop :=
  ∀ tokens front tail, line.rest = front ++ tail → IsBeginning Read tail tokens front →
    (∀ t ∈ tokens, t.Fits settings) →
    Program.slots (tokens.flatMap (Token.denote settings)) < slots

/-- No line comes near the number of its characters times the largest repeat count. -/
theorem ample_of_length (long : 65535 * line.rest.length < slots) : line.Ample settings slots := by
  intro tokens front tail rest_eq beginning fits
  have front_le : front.length ≤ line.rest.length := by
    rw [rest_eq, List.length_append]
    exact Nat.le_add_right _ _
  have slots_le : Program.slots (tokens.flatMap (Token.denote settings)) ≤
      65535 * front.length := by
    clear rest_eq front_le
    induction beginning with
    | nil => exact Nat.le_refl 0
    | separator _ _ induction =>
      have := induction fits
      rw [List.length_cons]
      omega
    | token spelled _ _ induction =>
      obtain ⟨first_fits, fits⟩ := List.forall_mem_cons.mp fits
      have first := Token.slots_denote_le spelled first_fits
      have later := induction fits
      rw [List.flatMap_cons, Program.slots_append, List.length_append]
      omega
  omega

theorem Ample.withCapacity (ample : line.Ample settings slots) (n : Nat) :
    line.Ample (settings.withCapacity n) slots := by
  intro tokens front tail rest_eq beginning fits
  rw [Token.denote_withCapacity]
  exact ample tokens front tail rest_eq beginning fun t member =>
    Token.fits_withCapacity.mp (fits t member)

/-- The result of a line if all pins were free and there were so many slots. -/
def unfiltered (settings : Settings) (slots : Nat) (line : Cursor) : Except Rejection Program :=
  (line.compile (settings.withCapacity slots) fun _ => .io).1.result

theorem unfiltered_eq_compileFrom (settings : Settings) (slots : Nat) (line : Cursor) :
    line.unfiltered settings slots =
      (compileFrom (settings.withCapacity slots) (fun _ => .io) {} line.input).result := rfl

theorem Ample.room {tokens : List Token} {front tail : List Char}
    (ample : line.Ample settings slots) (rest_eq : line.rest = front ++ tail)
    (beginning : IsBeginning Read tail tokens front) (fits : ∀ t ∈ tokens, t.Fits settings) :
    Draft.Room (settings.withCapacity slots) {} (tokens.flatMap (Token.denote settings)) := by
  refine .inr ?_
  rw [Nat.zero_add]
  exact ample tokens front tail rest_eq beginning fits

theorem pinFree_of_unowned (t : Token) : t.PinFree fun _ => .io := by
  cases t with
  | value => trivial
  | command => exact fun _ _ _ => rfl
  | text => trivial

/-- A line that is accepted is accepted as the same program with free pins and more slots. -/
theorem unfiltered_of_compile (ample : line.Ample settings slots)
    (compiled : (line.compile settings role).1.result = .ok p) :
    line.unfiltered settings slots = .ok p := by
  obtain ⟨tokens, script, valid, -, p_eq⟩ := reads_of_compileFrom compiled
  obtain rfl : p = tokens.flatMap (Token.denote settings) := p_eq
  have fits (t : Token) (member : t ∈ tokens) := (valid t member).1
  have room := ample.room (List.append_nil _).symm script.isBeginning fits
  rw [← Token.denote_withCapacity settings slots] at room ⊢
  exact compileFrom_of_reads script rfl
    (fun t member => ⟨(fits t member).withCapacity slots, pinFree_of_unowned t⟩) room

/-- What is accepted with free pins and more slots is accepted if its slots and pins are there. -/
theorem compile_of_unfiltered (unfiltered_eq : line.unfiltered settings slots = .ok p)
    (slots_lt : p.slots < settings.capacity)
    (free : ∀ i ∈ p, i.op.claimsPin = true → role i.pin = .io) :
    (line.compile settings role).1.result = .ok p := by
  obtain ⟨tokens, script, valid, -, p_eq⟩ := reads_of_compileFrom unfiltered_eq
  rw [Token.denote_withCapacity] at p_eq
  obtain rfl : p = tokens.flatMap (Token.denote settings) := p_eq
  refine compileFrom_of_reads (d := {}) script rfl (fun t member => ⟨?_, ?_⟩) (.inr ?_)
  · exact Token.fits_withCapacity.mp (valid t member).1
  · exact Token.pinFree_of_denote fun i mem => free i (List.mem_flatMap.mpr ⟨t, member, mem⟩)
  · rwa [Nat.zero_add]

/-- A line that would fail even if all pins were free and there were more slots fails for that
reason, or earlier for the lack of room or of a free pin. -/
theorem compile_of_unfiltered_error {reason : Rejection} (ample : line.Ample settings slots)
    (unfiltered_eq : line.unfiltered settings slots = .error reason) :
    let result := (line.compile settings role).1.result
    result = .error reason ∨ result = .error (.exceedsCapacity settings.capacity) ∨
      ∃ pin position, result = .error (.pinInUse pin position) := by
  intro result
  cases result_eq : result with
  | ok p =>
    rw [unfiltered_of_compile ample result_eq] at unfiltered_eq
    contradiction
  | error actual =>
    cases turnedDown_of_compileFrom result_eq with
    | full => exact .inr (.inl rfl)
    | failed rest_eq beginning valid _ ordinary fails =>
      have fits (t : Token) (member : t ∈ _) := (valid t member).1
      rcases fails.pinInUse_or slots fun _ => .io with ⟨pin, position, rfl⟩ | fails
      · exact .inr (.inr ⟨pin, position, rfl⟩)
      · have room := ample.room rest_eq beginning fits
        rw [← Token.denote_withCapacity settings slots] at room
        have failed := compileFrom_eq_error_iff.mpr (.failed rest_eq beginning
          (fun t member => ⟨(fits t member).withCapacity slots, pinFree_of_unowned t⟩) room ordinary
          fails)
        rw [unfiltered_eq_compileFrom, failed] at unfiltered_eq
        exact .inl unfiltered_eq

/-- The program of a line that is accepted takes fewer slots than there are and claims free pins. -/
theorem slots_lt_and_free_of_compile (valid : settings.Valid)
    (compiled : (line.compile settings role).1.result = .ok p) :
    p.slots < settings.capacity ∧ ∀ i ∈ p, i.op.claimsPin = true → role i.pin = .io :=
  ⟨(budgeted_of_compile valid compiled).slots_lt, (permitted_of_compile compiled).free⟩

/-- The capacity and the owners of the pins only filter: neither changes the program that a line
compiles to, nor why it is turned down otherwise. -/
theorem compile_filters (valid : settings.Valid) (role : Nat → PinRole) (line : Cursor) :
    (∀ slots, 65535 * line.rest.length < slots → line.Ample settings slots) ∧
    (∀ slots, line.Ample settings slots →
      (∀ p, (line.compile settings role).1.result = .ok p ↔
        line.unfiltered settings slots = .ok p ∧ p.slots < settings.capacity ∧
          ∀ i ∈ p, i.op.claimsPin = true → role i.pin = .io) ∧
      ∀ reason, line.unfiltered settings slots = .error reason →
        let result := (line.compile settings role).1.result
        result = .error reason ∨ result = .error (.exceedsCapacity settings.capacity) ∨
          ∃ pin position, result = .error (.pinInUse pin position)) ∧
    ∀ p capacity other, (line.compile settings role).1.result = .ok p →
      let result := (line.compile (settings.withCapacity capacity) other).1.result
      (settings.capacity ≤ capacity → (∀ pin, role pin = .io → other pin = .io) →
        result = .ok p) ∧
      ∀ q, result = .ok q → q = p := by
  refine ⟨fun slots => ample_of_length, fun slots ample => ⟨fun p => ⟨fun compiled => ?_, ?_⟩, ?_⟩,
    fun p capacity other compiled => ⟨fun capacity_le free => ?_, fun q other_eq => ?_⟩⟩
  · exact ⟨unfiltered_of_compile ample compiled, slots_lt_and_free_of_compile valid compiled⟩
  · rintro ⟨unfiltered_eq, slots_lt, free⟩
    exact compile_of_unfiltered unfiltered_eq slots_lt free
  · exact fun reason => compile_of_unfiltered_error ample
  all_goals
    have ample : line.Ample settings (65535 * line.rest.length + 1) :=
      ample_of_length (Nat.lt_succ_self _)
    have unfiltered_eq := unfiltered_of_compile ample compiled
  · obtain ⟨slots_lt, claimed⟩ := slots_lt_and_free_of_compile valid compiled
    replace slots_lt : p.slots < (settings.withCapacity capacity).capacity :=
      Nat.lt_of_lt_of_le slots_lt capacity_le
    exact compile_of_unfiltered unfiltered_eq slots_lt fun i member claims =>
      free _ (claimed i member claims)
  · have other_unfiltered := unfiltered_of_compile (ample.withCapacity capacity) other_eq
    exact Except.ok.inj (other_unfiltered.symm.trans unfiltered_eq)

/-- An output and two reads take three slots and claim the pin of the output: four slots are enough
if the pin is free, three are not. -/
theorem compile_output_and_reads_filtered :
    let line : Cursor := { line := ['A', '.', '1', ' ', 'r', ':', '2'] }
    let p : Program := [{ op := .outputHigh, pin := 1, hasBits := true },
      { op := .read, repeats := 2, hasRepeats := true }]
    let four := Settings.withCapacity {} 4
    let three := Settings.withCapacity {} 3
    (four.Valid ∧ line.unfiltered four 458753 = .ok p ∧
      ∀ role, (line.compile four role).1.result = .ok p ↔ role 1 = .io) ∧
    three.Valid ∧ ∀ role, (line.compile three role).1.result ≠ .ok p := by
  intro line p four three
  have four_valid : four.Valid := Settings.fault?_eq_none_iff.mp rfl
  have three_valid : three.Valid := Settings.fault?_eq_none_iff.mp rfl
  have unfiltered_eq : line.unfiltered four 458753 = .ok p := by
    cbv
  have enough : 65535 * line.rest.length < 458753 := by decide
  refine ⟨⟨four_valid, unfiltered_eq, fun role => ?_⟩, three_valid, fun role compiled => ?_⟩
  · have filtered := compile_filters four_valid role line
    have slots_lt : p.slots < four.capacity := by decide
    rw [(filtered.2.1 _ (filtered.1 _ enough)).1, unfiltered_eq, and_iff_right rfl,
      and_iff_right slots_lt]
    simp [p, Operation.claimsPin]
  · have filtered := compile_filters three_valid role line
    have slots_lt := ((filtered.2.1 _ (filtered.1 _ enough)).1 p).mp compiled
    exact absurd slots_lt.2.1 (by decide)

end Cursor

end BusScript
