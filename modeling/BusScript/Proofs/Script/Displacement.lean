import BusScript.Proofs.Script.Acceptance
import BusScript.Proofs.Script.Movement

/-!
# A text in another place

What a text is compiled to does not depend on how many characters of its line precede it. With more
of them in front, every position that is named is further behind by as many: in a rejection, in what
an observer is told, and where reading stops.
-/

namespace BusScript

/-! ### The same things further behind -/

/-- The same text with `n` more characters in front. -/
def Input.shift (n : Nat) (i : Input) : Input where
  position := i.position + n
  rest := i.rest

/-- The same failure with `n` more characters in front. -/
def Failure.shift (n : Nat) (failure : Failure) : Failure where
  reason := failure.reason.shift n
  input := failure.input.shift n

/-- What an observer is told with `n` more characters in front. -/
def Event.shift (n : Nat) : Event → Event
  | .appended i position => .appended i (position + n)
  | .rejected reason => .rejected (reason.shift n)
  | other => other

/-- The same draft with `n` more characters in front of its line. -/
def Draft.shift (n : Nat) (d : Draft) : Draft :=
  { d with events := d.events.map (Event.shift n) }

/-- The same compilation with `n` more characters in front. -/
def Compilation.shift (n : Nat) (c : Compilation) : Compilation where
  result := c.result.mapError (Rejection.shift n)
  input := c.input.shift n
  events := c.events.map (Event.shift n)

/-- What was read and what is behind it, or why nothing was read, with `n` more characters in front.
-/
def shiftReading {α ε : Type} (shift : Nat → ε → ε) (n : Nat) :
    Except ε (α × Input) → Except ε (α × Input)
  | .ok (a, rest) => .ok (a, rest.shift n)
  | .error stuck => .error (shift n stuck)

/-- A draft or the compilation that stopped, with `n` more characters in front. -/
def shiftDraft (n : Nat) : Except Compilation Draft → Except Compilation Draft
  | .ok d => .ok (d.shift n)
  | .error stopped => .error (stopped.shift n)

section Shift

variable {n : Nat}

theorem Input.advance_shift (m : Nat) (i : Input) :
    (i.shift n).advance m = (i.advance m).shift n := by
  simp only [advance, shift, Nat.add_right_comm]

theorem Input.tokenPosition_shift (i : Input) :
    (i.shift n).tokenPosition = i.tokenPosition + n :=
  Nat.add_right_comm ..

/-! ### Reading tokens -/

theorem Attributes.readValue_shift (i : Input) :
    readValue (i.shift n) = shiftReading Input.shift n (readValue i) := by
  simp only [readValue_eq, Input.advance_shift]
  cases literal_eq : Literal.read? (i.advance 1).rest with
  | none => simp only [Input.shift, literal_eq, shiftReading]
  | some found => simp only [Input.shift, literal_eq, shiftReading]

theorem Attributes.readOne?_shift (seen : Attributes) (i : Input) :
    readOne? seen (i.shift n) = (readOne? seen i).map (shiftReading Input.shift n) := by
  have map_shift (give : Nat → Attributes) :
      (readValue (i.shift n)).map (fun found => (give found.1, found.2)) =
        shiftReading Input.shift n
          ((readValue i).map fun found => (give found.1, found.2)) := by
    rw [readValue_shift]
    cases readValue i <;> rfl
  rw [readOne?, readOne?, show (i.shift n).rest = i.rest from rfl]
  split
  next => exact congrArg some (map_shift fun number => { seen with bits := some number })
  next =>
    split
    next => exact congrArg some (map_shift fun number => { seen with repeats := some number })
    next => rfl

theorem Attributes.readUpTo_shift (count : Nat) (seen : Attributes) (i : Input) :
    readUpTo count seen (i.shift n) = shiftReading Input.shift n (readUpTo count seen i) := by
  induction count generalizing seen i with
  | zero => rfl
  | succ count induction =>
    rw [readUpTo, readUpTo, readOne?_shift]
    cases readOne? seen i with
    | none => rfl
    | some one =>
      cases one with
      | error stuck => rfl
      | ok found => exact induction found.1 found.2

namespace Token

theorem readAttributes_shift (position : Nat) (i : Input) :
    readAttributes (position + n) (i.shift n) =
      shiftReading Failure.shift n (readAttributes position i) := by
  rw [readAttributes, readAttributes, Attributes.read, Attributes.readUpTo_shift, Attributes.read]
  cases Attributes.readUpTo 2 {} i <;> rfl

theorem readValue_shift (i : Input) :
    readValue (i.shift n) = shiftReading Failure.shift n (readValue i) := by
  rw [readValue_eq, readValue_eq, Input.tokenPosition_shift, show (i.shift n).rest = i.rest from rfl]
  cases Literal.read? i.rest with
  | none => rfl
  | some found =>
    simp only [Input.advance_shift, readAttributes_shift]
    cases readAttributes i.tokenPosition (i.advance found.2) <;> rfl

theorem readCommand_shift (symbol : Char) (i : Input) :
    readCommand symbol (i.shift n) = shiftReading Failure.shift n (readCommand symbol i) := by
  rw [readCommand, readCommand, Input.tokenPosition_shift]
  cases Operation.ofSymbol? symbol with
  | none => rfl
  | some op =>
    simp only [Input.advance_shift, readAttributes_shift]
    cases readAttributes i.tokenPosition (i.advance 1) <;> rfl

theorem readText_shift (i : Input) :
    readText (i.shift n) = shiftReading Failure.shift n (readText i) := by
  simp only [readText, Input.advance_shift, Input.tokenPosition_shift]
  rw [show ((i.advance 1).shift n).rest = (i.advance 1).rest from rfl]
  split <;> rfl

theorem read_shift (c : Char) (i : Input) :
    read c (i.shift n) = shiftReading Failure.shift n (read c i) := by
  rw [read, read, readValue_shift, readText_shift, readCommand_shift]
  split
  next => rfl
  next => split <;> rfl

/-! ### Appending instructions -/

theorem applyRepeats_shift (position : Nat) (a : Attributes) (i : Instruction) :
    applyRepeats (position + n) a i = (applyRepeats position a i).mapError (Rejection.shift n) := by
  rw [applyRepeats, applyRepeats]
  split
  next => rfl
  next => split <;> rfl

theorem applyBits_shift (settings : Settings) (role : Nat → PinRole) (symbol : Char)
    (position : Nat) (a : Attributes) (i : Instruction) :
    applyBits settings role symbol (position + n) a i =
      (applyBits settings role symbol position a i).mapError (Rejection.shift n) := by
  rw [applyBits, applyBits]
  split
  next =>
    split
    next => rfl
    next =>
      split
      next => rfl
      next => split <;> rfl
  next =>
    split
    next => rfl
    next => split <;> rfl

/-- Attributes apply wherever their token stands, or fail to do so for the same reason. -/
theorem applyAttributes_shift (settings : Settings) (role : Nat → PinRole) (symbol : Char)
    (position : Nat) (a : Attributes) (i : Instruction) :
    applyAttributes settings role symbol (position + n) a i =
      (applyAttributes settings role symbol position a i).mapError (Rejection.shift n) := by
  rw [applyAttributes, applyAttributes, applyRepeats_shift]
  cases applyRepeats position a i with
  | error reason => rfl
  | ok counted => exact applyBits_shift settings role symbol position a counted

end Token

namespace Draft

variable {settings : Settings} {role : Nat → PinRole} {d : Draft}

theorem shift_foldl_push (writes : List Instruction) (d : Draft) :
    writes.foldl (fun d i => d.push i) (d.shift n) =
      (writes.foldl (fun d i => d.push i) d).shift n := by
  induction writes generalizing d with
  | nil => rfl
  | cons write writes induction => exact induction (d.push write)

theorem fail_shift (reason : Rejection) (i : Input) :
    (d.shift n).fail (reason.shift n) (i.shift n) = (d.fail reason i).shift n := by
  simp only [fail, shift, Compilation.shift, Array.toList_map]
  rfl

theorem hasRoom_shift (capacity cost : Nat) :
    (d.shift n).hasRoom capacity cost = d.hasRoom capacity cost := rfl

theorem pushText_shift (chars : List Char) (i : Input) :
    (d.shift n).pushText settings chars (i.shift n) =
      shiftDraft n (d.pushText settings chars i) := by
  induction chars generalizing d i with
  | nil => rfl
  | cons c chars induction =>
    rw [pushText, pushText, hasRoom_shift, shift_foldl_push, Input.advance_shift]
    split
    next => exact induction _
    next => exact congrArg Except.error (fail_shift (.exceedsCapacity settings.capacity) _)

theorem pushCommand_shift (symbol : Char) (start rest : Input) (a : Attributes)
    (plain : Instruction) :
    (d.shift n).pushCommand settings role symbol (start.shift n) (rest.shift n) a plain =
      shiftDraft n (d.pushCommand settings role symbol start rest a plain) := by
  simp only [pushCommand, Input.tokenPosition_shift, Token.applyAttributes_shift]
  cases Token.applyAttributes settings role symbol start.tokenPosition a plain with
  | error reason => exact congrArg Except.error (fail_shift reason rest)
  | ok i =>
    simp only [Except.mapError]
    by_cases room : d.hasRoom settings.capacity i.slotCost = true
    · rw [if_pos room, if_pos (by rwa [hasRoom_shift])]
      simp [shiftDraft, shift, tell, push, Event.shift]
    · rw [if_neg room, if_neg (by rwa [hasRoom_shift])]
      exact congrArg Except.error (fail_shift (.exceedsCapacity settings.capacity) rest)

theorem append_shift (c : Char) (start rest : Input) (t : Token) :
    (d.shift n).append settings role c (start.shift n) (rest.shift n) t =
      shiftDraft n (d.append settings role c start rest t) := by
  cases t with
  | value l a => exact pushCommand_shift c start rest a _
  | command symbol op a => exact pushCommand_shift symbol start rest a _
  | text chars =>
    rw [append, append, Input.advance_shift]
    exact pushText_shift chars _

end Draft

/-! ### Compiling -/

/-- What is unread of a line compiles wherever it stands, or is turned down for the same reason. -/
theorem compileFrom_shift {settings : Settings} {role : Nat → PinRole} (d : Draft) (i : Input) :
    compileFrom settings role (d.shift n) (i.shift n) =
      (compileFrom settings role d i).shift n := by
  fun_induction compileFrom settings role d i with
  | case1 d i rest_eq =>
    rw [compileFrom]
    split
    next => simp [Compilation.shift, Draft.shift, Except.mapError]
    next c text cons_eq => exact absurd (rest_eq.symm.trans cons_eq) (by simp)
  | case2 d i c text rest_eq separates induction =>
    have shifted_eq : (i.shift n).rest = c :: text := rest_eq
    rw [compileFrom_of_separator shifted_eq separates, Input.advance_shift, induction]
  | case3 d i c text rest_eq ordinary failure read_eq =>
    have shifted_eq : (i.shift n).rest = c :: text := rest_eq
    rw [compileFrom_of_cons shifted_eq, if_neg ordinary, Token.read_shift, read_eq]
    exact Draft.fail_shift failure.reason failure.input
  | case4 d i c text rest_eq ordinary t rest read_eq stopped append_eq =>
    have shifted_eq : (i.shift n).rest = c :: text := rest_eq
    rw [compileFrom_of_cons shifted_eq, if_neg ordinary, Token.read_shift, read_eq]
    simp only [shiftReading, Draft.append_shift, append_eq, shiftDraft]
  | case5 d i c text rest_eq ordinary t rest read_eq later append_eq induction =>
    have shifted_eq : (i.shift n).rest = c :: text := rest_eq
    rw [compileFrom_of_cons shifted_eq, if_neg ordinary, Token.read_shift, read_eq]
    simp only [shiftReading, Draft.append_shift, append_eq, shiftDraft, induction]

theorem Compilation.verdict_shift (c : Compilation) :
    (c.shift n).verdict = c.verdict.shift n := by
  rw [verdict, verdict, Compilation.shift]
  cases c.result <;> rfl

theorem compile_shift (settings : Settings) (role : Nat → PinRole) (i : Input) :
    compile settings role (i.shift n) = (compile settings role i).shift n := by
  have draft_eq : Draft.shift n {} = {} := by simp [Draft.shift]
  have compiled_eq : compileFrom settings role {} (i.shift n) =
      (compileFrom settings role {} i).shift n := by
    rw [← compileFrom_shift, draft_eq]
  simp only [compile, compiled_eq, Compilation.verdict_shift]
  simp [Compilation.shift, Event.shift]

end Shift

namespace Cursor

theorem discard_ofString (line : String) {n : Nat} (word : n < 2 ^ 64) :
    (ofString line).discard n = .ok ((ofString line).seek n) := by
  have position_eq : (ofString line).position + n = n := Nat.zero_add n
  have discard_eq := discard_of_lt (c := ofString line) (n := n) (by rwa [position_eq])
  rwa [position_eq] at discard_eq

/-- Behind the first `n` characters of a line there is what a line without them begins with. -/
theorem input_seek_ofString {line : String} {n : Nat} (inside : n ≤ line.length) :
    ((ofString line).seek n).input =
      (ofString (String.ofList (line.toList.drop n))).input.shift n := by
  have length_eq : (ofString line).rest.length = line.length := String.length_toList
  have seek_eq := input_seek_add (c := ofString line) (length_eq ▸ inside)
  rw [show (ofString line).position + n = n from Nat.zero_add n] at seek_eq
  rw [seek_eq]
  simp [Input.advance, input, ofString, rest, Input.shift]

theorem input_seek_shift {c other : Cursor} {n : Nat} (inside : n ≤ c.line.length)
    (line_eq : other.line = c.line.drop n) (place : Nat) :
    (c.seek (place + n)).input = (other.seek place).input.shift n := by
  have position_eq : min (place + n) c.line.length = min place other.line.length + n := by
    rw [line_eq, List.length_drop]
    omega
  rw [input, input, rest, rest, Input.shift, position_seek, position_seek, line_seek, line_seek,
    position_eq, line_eq, List.drop_drop, Nat.add_comm n]

/-- Passing over the first characters of a line changes nothing but positions, which are further
behind by as many. -/
theorem compile_discard (settings : Settings) (role : Nat → PinRole) {line : String} {n : Nat}
    (word : n < 2 ^ 64) (inside : n ≤ line.length) :
    ∃ start, (ofString line).discard n = .ok start ∧
      let skipped := start.compile settings role
      let alone := (ofString (String.ofList (line.toList.drop n))).compile settings role
      (∀ p, skipped.1.result = .ok p ↔ alone.1.result = .ok p) ∧
        (∀ reason, alone.1.result = .error reason →
          skipped.1.result = .error (reason.shift n)) ∧
        skipped.1.events = alone.1.events.map (Event.shift n) ∧
        skipped.2.position = alone.2.position + n ∧ skipped.2.rest = alone.2.rest := by
  refine ⟨_, discard_ofString line word, ?_⟩
  intro skipped alone
  have input_eq := input_seek_ofString inside
  have compiled_eq : skipped.1 = alone.1.shift n := by
    simp only [skipped, alone, compile, input_eq, compile_shift]
  have stopped_eq : skipped.2.input = alone.2.input.shift n := by
    have place_eq : skipped.2 =
        ((ofString line).seek n).seek (alone.1.input.position + n) := by
      simp only [skipped, alone, compile, input_eq, compile_shift]
      rfl
    rw [place_eq]
    refine input_seek_shift ?_ ?_ alone.1.input.position
    · rwa [line_seek, ofString, String.length_toList]
    · simp [ofString]
  refine ⟨fun p => ?_, fun reason failed => ?_, ?_, congrArg Input.position stopped_eq,
    congrArg Input.rest stopped_eq⟩
  · rw [compiled_eq, Compilation.shift]
    cases alone.1.result <;> simp [Except.mapError]
  · rw [compiled_eq, Compilation.shift, failed, Except.mapError]
  · rw [compiled_eq, Compilation.shift]

/-- An unknown third character of a line is the first behind two that are passed over. -/
theorem compile_discard_two_of_unknown_symbol :
    let line := "r q 5"
    ∃ start, 2 < 2 ^ 64 ∧ 2 ≤ line.length ∧ (ofString line).discard 2 = .ok start ∧
      let skipped := start.compile {} fun _ => .io
      skipped.1.result = .error (.unknownSymbol 'q' 3) ∧
        skipped.2.position = 2 ∧ skipped.2.rest = "q 5".toList := by
  intro line
  have inside : 2 ≤ line.length := by decide
  have alone_eq : ofString (String.ofList (line.toList.drop 2)) = { line := ['q', ' ', '5'] } := by
    simp [line, ofString]
  have failed : ({ line := ['q', ' ', '5'] } : Cursor).compile {} (fun _ => .io) =
      ({ result := .error (.unknownSymbol 'q' 1), input := ⟨0, ['q', ' ', '5']⟩,
         events := [.compileBegins 1024, .rejected (.unknownSymbol 'q' 1)] },
        { line := ['q', ' ', '5'] }) := by
    cbv
  obtain ⟨start, discard_eq, -, rejected, -, position_eq, rest_eq⟩ :=
    compile_discard {} (fun _ => .io) (by decide) inside
  rw [alone_eq, failed] at rejected position_eq rest_eq
  exact ⟨start, by decide, inside, discard_eq, rejected _ rfl, position_eq,
    rest_eq.trans (by decide)⟩

end Cursor

end BusScript
