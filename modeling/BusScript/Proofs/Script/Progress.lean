import BusScript.Proofs.Script.Additions
import BusScript.Proofs.Script.Movement

/-!
# Compiling a line comes to an end

No loop of the compiler has a bound of its own: it looks for tokens until the line is over, for
attributes until none follows, for the closing quote until there is one or the line is over, and for
digits until something else comes. Each loop is given here by a single turn. It comes to an end
because a turn behind which it goes on uses something up: characters of the line, or an attribute
that can be given only once.

What is used up also bounds what is made of it: no more instructions than there are bytes.
-/

namespace BusScript

/-! ### Loops -/

/-- What a turn of a loop comes to. -/
inductive Turn (State Result : Type) where
  /-- The loop is over. -/
  | done (result : Result)
  /-- The loop goes on from a further state. -/
  | next (later : State)

/-- The result that a turn leads to, given what further states lead to. -/
def Turn.resultBy {State Result : Type} (result : State → Result) : Turn State Result → Result
  | .done r => r
  | .next later => result later

/-- A loop is over after so many turns, the last of which tells its result. Nothing but its turns
ends it. -/
inductive Ends {State Result : Type} (turn : State → Turn State Result) :
    State → Nat → Result → Prop
  | done {s : State} {r : Result} (turn_eq : turn s = .done r) : Ends turn s 1 r
  | next {s later : State} {n : Nat} {r : Result} (turn_eq : turn s = .next later)
      (ends : Ends turn later n r) : Ends turn s (n + 1) r

/-- A loop is over after at most so many turns. -/
def EndsWithin {State Result : Type} (turn : State → Turn State Result) (s : State) (bound : Nat)
    (r : Result) : Prop :=
  ∃ n ≤ bound, Ends turn s n r

/-- A loop ends if every turn behind which it goes on uses something up. -/
theorem endsWithin_of_left {State Result : Type} {turn : State → Turn State Result}
    {result : State → Result} (result_eq : ∀ s, result s = (turn s).resultBy result)
    (left : State → Nat) (less : ∀ {s later}, turn s = .next later → left later < left s)
    (s : State) : EndsWithin turn s (left s + 1) (result s) := by
  induction left_eq : left s using Nat.strong_induction_on generalizing s with
  | _ bound induction =>
    rw [result_eq]
    cases turn_eq : turn s with
    | done r => exact ⟨1, Nat.le_add_left 1 bound, .done turn_eq⟩
    | next later =>
      have later_less := less turn_eq
      obtain ⟨n, n_le, ends⟩ := induction (left later) (left_eq ▸ later_less) later rfl
      exact ⟨n + 1, by omega, .next turn_eq ends⟩

/-! ### Digits -/

namespace Literal

/-- One turn of reading digits: the next one is appended to the value and counted. -/
def turn (base : Nat) :
    Nat × Nat × List Char → Turn (Nat × Nat × List Char) (Option (Nat × Nat))
  | (value, count, []) => .done (some (value, count))
  | (value, count, c :: rest) =>
    match digit? base c with
    | none => .done (some (value, count))
    | some digit =>
      match appendDigit? base value digit with
      | none => .done none
      | some larger => .next (larger, count + 1, rest)

theorem readDigits?_eq_turn (base : Nat) : ∀ s : Nat × Nat × List Char,
    readDigits? base s.1 s.2.1 s.2.2 =
      (turn base s).resultBy fun s => readDigits? base s.1 s.2.1 s.2.2 := by
  rintro ⟨value, count, _ | ⟨c, rest⟩⟩
  · rfl
  · simp only [readDigits?, turn]
    cases digit? base c with
    | none => rfl
    | some digit =>
      simp only
      cases appendDigit? base value digit <;> rfl

theorem length_lt_of_turn {base : Nat} {s later : Nat × Nat × List Char}
    (turn_eq : turn base s = .next later) : later.2.2.length < s.2.2.length := by
  obtain ⟨value, count, _ | ⟨c, rest⟩⟩ := s
  · contradiction
  · simp only [turn] at turn_eq
    split at turn_eq
    next => contradiction
    next =>
      split at turn_eq
      next => contradiction
      next =>
        obtain rfl := Turn.next.inj turn_eq
        exact Nat.lt_succ_self _

/-- Reading digits ends at the latest where the text does. -/
theorem endsWithin_readDigits? (base : Nat) (text : List Char) :
    EndsWithin (turn base) (0, 0, text) (text.length + 1) (readDigits? base 0 0 text) :=
  endsWithin_of_left (readDigits?_eq_turn base) (fun s => s.2.2.length) length_lt_of_turn
    (0, 0, text)

end Literal

/-! ### Attributes -/

namespace Attributes

/-- One turn of reading attributes: one that was not given yet is read, unless none follows or its
number cannot be read. -/
def turn : Attributes × Input → Turn (Attributes × Input) (Except Input (Attributes × Input))
  | (seen, i) =>
    match readOne? seen i with
    | none => .done (.ok (seen, i))
    | some (.error stuck) => .done (.error stuck)
    | some (.ok next) => .next next

theorem missing_pos_of_readOne? {seen : Attributes} {i : Input}
    {one : Except Input (Attributes × Input)} (one_eq : readOne? seen i = some one) :
    0 < seen.missing := by
  by_contra complete
  have given : seen.bits ≠ none ∧ seen.repeats ≠ none := by
    constructor <;> intro fresh <;> simp [missing, fresh] at complete
  simp [readOne?, given] at one_eq

theorem missing_of_readOne? {seen next : Attributes} {i rest : Input}
    (one_eq : readOne? seen i = some (.ok (next, rest))) : seen.missing = next.missing + 1 := by
  obtain ⟨_, _, -, -, given⟩ := exists_of_readOne? one_eq
  exact given.missing_eq

/-- As many attributes are read as can still be given. -/
theorem readUpTo_eq_turn : ∀ s : Attributes × Input,
    readUpTo s.1.missing s.1 s.2 = (turn s).resultBy fun s => readUpTo s.1.missing s.1 s.2 := by
  rintro ⟨seen, i⟩
  simp only [turn]
  cases one_eq : readOne? seen i with
  | none =>
    cases seen.missing with
    | zero => rfl
    | succ n => simp only [readUpTo, one_eq, Turn.resultBy]
  | some one =>
    cases one with
    | error stuck =>
      obtain ⟨n, missing_eq⟩ := Nat.exists_eq_succ_of_ne_zero (missing_pos_of_readOne? one_eq).ne'
      simp only [missing_eq, readUpTo, one_eq, Turn.resultBy]
    | ok next => simp only [missing_of_readOne? one_eq, readUpTo, one_eq, Turn.resultBy]

theorem missing_lt_of_turn {s later : Attributes × Input} (turn_eq : turn s = .next later) :
    later.1.missing < s.1.missing := by
  simp only [turn] at turn_eq
  split at turn_eq
  next => contradiction
  next => contradiction
  next one_eq =>
    obtain rfl := Turn.next.inj turn_eq
    rw [missing_of_readOne? one_eq]
    exact Nat.lt_succ_self _

/-- Reading attributes ends at the latest when both were given. -/
theorem endsWithin_read (i : Input) : EndsWithin turn ({}, i) 3 (read i) :=
  endsWithin_of_left readUpTo_eq_turn (fun s => s.1.missing) missing_lt_of_turn ({}, i)

example : ∃ found, Ends turn ({}, { position := 1, rest := ".4:5r".toList }) 3 (.ok found) :=
  ⟨_, .next rfl (.next rfl (.done rfl))⟩

end Attributes

/-! ### Quoted texts -/

namespace Token

/-- One turn of looking for the closing quote: the character so many places behind the opening quote
is it, or another one, or there is none. -/
def look (i : Input) (place : Nat) : Turn Nat (Except Failure (Token × Input)) :=
  let body := i.advance 1
  match body.rest[place]? with
  | none => .done (.error { reason := .unterminatedText i.tokenPosition, input := body })
  | some c =>
    if c = '"' then .done (.ok (.text (body.rest.take place), body.advance (place + 1)))
    else .next (place + 1)

/-- The place of the first quote from the given one on, or the end of the text. -/
def quotePlace (text : List Char) (place : Nat) : Nat :=
  place + ((text.drop place).takeWhile (· != '"')).length

/-- What is read of a quoted text whose closing quote is looked for from the given place on. -/
def readTextFrom (i : Input) (place : Nat) : Except Failure (Token × Input) :=
  let body := i.advance 1
  if quotePlace body.rest place < body.rest.length then
    .ok (.text (body.rest.take (quotePlace body.rest place)),
      body.advance (quotePlace body.rest place + 1))
  else .error { reason := .unterminatedText i.tokenPosition, input := body }

theorem readTextFrom_zero (i : Input) : readTextFrom i 0 = readText i := by
  have place_eq : quotePlace (i.advance 1).rest 0 =
      ((i.advance 1).rest.takeWhile (· != '"')).length := Nat.zero_add _
  have front : (i.advance 1).rest.takeWhile (· != '"') <+: (i.advance 1).rest :=
    List.takeWhile_prefix _
  have chars_eq := List.prefix_iff_eq_take.mp front
  rw [readTextFrom, readText, place_eq]
  simp only [← chars_eq]

theorem quotePlace_of_end {text : List Char} {place : Nat} (nothing : text[place]? = none) :
    quotePlace text place = place := by
  rw [quotePlace, List.drop_eq_nil_of_le (List.getElem?_eq_none_iff.mp nothing)]
  rfl

theorem quotePlace_of_char {text : List Char} {place : Nat} {c : Char}
    (char_eq : text[place]? = some c) :
    quotePlace text place = if c = '"' then place else quotePlace text (place + 1) := by
  obtain ⟨inside, rfl⟩ := List.getElem?_eq_some_iff.mp char_eq
  rw [quotePlace, quotePlace, List.drop_eq_getElem_cons inside, List.takeWhile_cons]
  split
  next other => simp_all [Nat.add_assoc, Nat.add_comm]
  next quote => simp_all

theorem readTextFrom_eq_look (i : Input) (place : Nat) :
    readTextFrom i place = (look i place).resultBy (readTextFrom i) := by
  rw [look]
  cases char_eq : (i.advance 1).rest[place]? with
  | none =>
    have beyond := List.getElem?_eq_none_iff.mp char_eq
    rw [readTextFrom, quotePlace_of_end char_eq, if_neg beyond.not_gt]
    rfl
  | some c =>
    simp only
    by_cases quote : c = '"'
    · have inside := (List.getElem?_eq_some_iff.mp char_eq).1
      rw [if_pos quote, readTextFrom, quotePlace_of_char char_eq, if_pos quote, if_pos inside]
      rfl
    · rw [if_neg quote, readTextFrom, quotePlace_of_char char_eq, if_neg quote]
      rfl

theorem lt_of_look {i : Input} {place later : Nat} (turn_eq : look i place = .next later) :
    later = place + 1 ∧ place < (i.advance 1).rest.length := by
  rw [look] at turn_eq
  split at turn_eq
  next => contradiction
  next char_eq =>
    split at turn_eq
    next => contradiction
    next =>
      obtain rfl := Turn.next.inj turn_eq
      exact ⟨rfl, (List.getElem?_eq_some_iff.mp char_eq).1⟩

/-- Looking for the closing quote ends at the latest where the line does. -/
theorem endsWithin_readText (i : Input) :
    EndsWithin (look i) 0 ((i.advance 1).rest.length + 1) (readText i) := by
  rw [← readTextFrom_zero]
  refine endsWithin_of_left (readTextFrom_eq_look i)
    (fun place => (i.advance 1).rest.length - place) (fun turn_eq => ?_) 0
  obtain ⟨rfl, inside⟩ := lt_of_look turn_eq
  exact Nat.sub_lt_sub_left inside (Nat.lt_succ_self _)

end Token

/-! ### Tokens -/

/-- The number of bytes that encode a text. -/
def byteCount (text : List Char) : Nat :=
  (String.ofList text).utf8ByteSize

theorem byteCount_append (front back : List Char) :
    byteCount (front ++ back) = byteCount front + byteCount back := by
  rw [byteCount, String.ofList_append, String.utf8ByteSize_append]
  rfl

theorem length_le_byteCount (text : List Char) : text.length ≤ byteCount text := by
  induction text with
  | nil => exact Nat.zero_le _
  | cons c text induction =>
    have count_eq : byteCount (c :: text) = c.utf8Size + byteCount text := by
      rw [byteCount, String.ofList_cons, String.utf8ByteSize_append, String.utf8ByteSize_singleton]
      rfl
    have one_le := c.utf8Size_pos
    rw [count_eq, List.length_cons]
    omega

namespace Token

/-- A token stands for no more instructions than it has bytes. -/
theorem Spelled.length_denote_le {t : Token} {word : List Char} (spelled : t.Spelled word)
    (settings : Settings) : (t.denote settings).length ≤ byteCount word := by
  have word_pos : 1 ≤ word.length := by
    obtain ⟨c, more, rfl, -⟩ := spelled.exists_head
    exact Nat.succ_pos _
  cases spelled with
  | value =>
    rw [denote_value]
    exact word_pos.trans (length_le_byteCount _)
  | command =>
    rw [denote_command]
    exact word_pos.trans (length_le_byteCount _)
  | @text chars =>
    have length_eq : (denote settings (.text chars)).length = byteCount chars := by
      rw [denote, List.length_map]
      rfl
    rw [length_eq, ← List.singleton_append, byteCount_append, byteCount_append]
    omega

theorem length_additions (settings : Settings) (position : Nat) (t : Token) :
    (t.additions settings position).length = (t.denote settings).length :=
  List.length_map _

theorem length_remnant_le (settings : Settings) (slots position : Nat) (t : Token) :
    (t.remnant settings slots position).length ≤ (t.denote settings).length := by
  rw [remnant]
  split
  · rw [← length_additions settings position, List.length_take]
    exact Nat.min_le_right _ _
  · exact Nat.zero_le _

end Token

section Compile

variable {settings : Settings} {role : Nat → PinRole}

/-- No more instructions are added than what is unread has bytes. -/
theorem Adds.length_le {slots : Nat} {i : Input} {added : List Addition}
    (adds : Adds settings role slots i added) : added.length ≤ byteCount i.rest := by
  induction adds with
  | nil => exact Nat.zero_le _
  | @separator slots i c text added rest_eq _ _ induction =>
    rw [Input.rest_advance, rest_eq, List.drop_one, List.tail_cons] at induction
    rw [rest_eq, ← List.singleton_append, byteCount_append]
    omega
  | @token slots i rest c text t added rest_eq _ read_eq _ _ induction =>
    obtain ⟨word, tail, split_eq, rfl, spelled, -⟩ := Token.spelled_of_read rest_eq read_eq
    have front_le := spelled.length_denote_le settings
    rw [Input.rest_advance, split_eq, List.drop_left] at induction
    rw [split_eq, byteCount_append, List.length_append, Token.length_additions]
    omega
  | unread => exact Nat.zero_le _
  | @refused slots i rest c text t rest_eq _ read_eq _ =>
    obtain ⟨word, tail, split_eq, -, spelled, -⟩ := Token.spelled_of_read rest_eq read_eq
    have front_le := spelled.length_denote_le settings
    have remnant_le := Token.length_remnant_le settings slots i.tokenPosition t
    rw [split_eq, byteCount_append]
    omega

/-- One turn of compiling a line: the next character is passed over if it is a separator, and else
the token that begins with it is read and appended. -/
def compileTurn (settings : Settings) (role : Nat → PinRole) :
    Draft × Input → Turn (Draft × Input) Compilation
  | (d, i) =>
    match i.rest with
    | [] => .done { result := .ok d.instructions.toList, input := i, events := d.events.toList }
    | c :: _ =>
      if isSeparator c then .next (d, i.advance 1)
      else
        match Token.read c i with
        | .error failure => .done (d.fail failure.reason failure.input)
        | .ok (token, rest) =>
          match d.append settings role c i rest token with
          | .error stopped => .done stopped
          | .ok later => .next (later, rest)

variable {d later : Draft} {i rest : Input} {c : Compilation}

/-- Compiling a line goes on as its turns tell. -/
theorem compileFrom_eq_turn (settings : Settings) (role : Nat → PinRole) :
    ∀ s : Draft × Input, compileFrom settings role s.1 s.2 =
      (compileTurn settings role s).resultBy fun s => compileFrom settings role s.1 s.2 := by
  rintro ⟨d, i⟩
  simp only [compileTurn]
  cases rest_eq : i.rest with
  | nil =>
    rw [compileFrom]
    split
    next => rfl
    next cons_eq =>
      rw [rest_eq] at cons_eq
      contradiction
  | cons first text =>
    rw [compileFrom_of_cons rest_eq]
    by_cases separates : isSeparator first = true
    · simp only [if_pos separates, Turn.resultBy]
    · simp only [if_neg separates]
      cases Token.read first i with
      | error failure => rfl
      | ok found =>
        simp only
        cases d.append settings role first i found.2 found.1 <;> rfl

/-- The turn that ends the loop finds nothing unread or fails. -/
theorem input_or_reason_of_done (turn_eq : compileTurn settings role (d, i) = .done c) :
    i.rest = [] ∧ c.input = i ∨ i.rest ≠ [] ∧ ∃ reason, c.result = .error reason := by
  cases rest_eq : i.rest with
  | nil =>
    simp only [compileTurn, rest_eq] at turn_eq
    obtain rfl := Turn.done.inj turn_eq
    exact .inl ⟨rfl, rfl⟩
  | cons first text =>
    refine .inr ⟨List.cons_ne_nil _ _, ?_⟩
    simp only [compileTurn, rest_eq] at turn_eq
    split at turn_eq
    next => contradiction
    next =>
      split at turn_eq
      next failure _ =>
        obtain rfl := Turn.done.inj turn_eq
        exact ⟨failure.reason, rfl⟩
      next =>
        split at turn_eq
        next append_eq =>
          obtain rfl := Turn.done.inj turn_eq
          exact Draft.exists_reason_of_append append_eq
        next => contradiction

/-- A turn behind which the loop goes on consumes a separator or a token, and appends no more
instructions than that has bytes. -/
theorem exists_word_of_next (turn_eq : compileTurn settings role (d, i) = .next (later, rest)) :
    ∃ word tail, i.rest = word ++ tail ∧ word ≠ [] ∧ rest = i.advance word.length ∧
      later.instructions.size ≤ d.instructions.size + byteCount word := by
  cases rest_eq : i.rest with
  | nil =>
    simp only [compileTurn, rest_eq] at turn_eq
    contradiction
  | cons first text =>
    simp only [compileTurn, rest_eq] at turn_eq
    split at turn_eq
    next =>
      obtain ⟨rfl, rfl⟩ := Prod.mk.inj (Turn.next.inj turn_eq)
      exact ⟨[first], text, rfl, List.cons_ne_nil _ _, rfl, Nat.le_add_right _ _⟩
    next =>
      split at turn_eq
      next => contradiction
      next token behind read_eq =>
        split at turn_eq
        next => contradiction
        next longer append_eq =>
          obtain ⟨rfl, rfl⟩ := Prod.mk.inj (Turn.next.inj turn_eq)
          obtain ⟨word, tail, split_eq, behind_eq, spelled, -⟩ :=
            Token.spelled_of_read rest_eq read_eq
          obtain ⟨_, _, rfl, -⟩ := spelled.exists_head
          obtain ⟨-, -, extended⟩ := Draft.extends_of_append append_eq
          refine ⟨_, tail, rest_eq.symm.trans split_eq, List.cons_ne_nil _ _, behind_eq, ?_⟩
          rw [← Array.length_toList, ← Array.length_toList, extended.instructions_eq,
            List.length_append]
          exact Nat.add_le_add_left (spelled.length_denote_le settings) _

theorem length_lt_of_compileTurn {s further : Draft × Input}
    (turn_eq : compileTurn settings role s = .next further) :
    further.2.rest.length < s.2.rest.length := by
  obtain ⟨word, tail, split_eq, nonempty, rest_eq, -⟩ := exists_word_of_next turn_eq
  have word_pos := List.length_pos_of_ne_nil nonempty
  rw [rest_eq, Input.rest_advance, split_eq, List.drop_left, List.length_append]
  omega

/-- Compiling a line ends at the latest when all its characters are consumed. -/
theorem endsWithin_compileFrom (settings : Settings) (role : Nat → PinRole) (i : Input) :
    EndsWithin (compileTurn settings role) ({}, i) (i.rest.length + 1)
      (compileFrom settings role {} i) :=
  endsWithin_of_left (compileFrom_eq_turn settings role) (fun s => s.2.rest.length)
    length_lt_of_compileTurn ({}, i)

/-- A line that compiles is consumed as a whole. -/
theorem input_of_ends {n : Nat} {p : Program}
    (ends : Ends (compileTurn settings role) (d, i) n c) (compiled : c.result = .ok p) :
    c.input = i.advance i.rest.length := by
  generalize state_eq : (d, i) = state at ends
  induction ends generalizing d i with
  | done done_eq =>
    subst state_eq
    obtain ⟨rest_eq, input_eq⟩ | ⟨-, reason, result_eq⟩ := input_or_reason_of_done done_eq
    · rw [input_eq, rest_eq, List.length_nil, Input.advance_zero]
    · rw [result_eq] at compiled
      contradiction
  | @next _ state _ _ next_eq _ induction =>
    subst state_eq
    obtain ⟨later, rest⟩ := state
    obtain ⟨word, tail, split_eq, -, rfl, -⟩ := exists_word_of_next next_eq
    rw [induction compiled rfl, Input.advance_advance, Input.rest_advance, split_eq,
      List.drop_left, List.length_append]

end Compile

namespace Cursor

/-- Compiling a line ends: every turn of its loop fails or consumes some of the line, and appends no
more instructions than that has bytes. -/
theorem ends_of_compile (settings : Settings) (role : Nat → PinRole) (line : Cursor) :
    let compilation := (line.compile settings role).1
    let stopped := (line.compile settings role).2
    (∀ d i, i.rest ≠ [] →
      (∃ c reason, compileTurn settings role (d, i) = .done c ∧ c.result = .error reason) ∨
        ∃ later word tail, compileTurn settings role (d, i) = .next (later, i.advance word.length) ∧
          i.rest = word ++ tail ∧ word ≠ [] ∧
          later.instructions.size ≤ d.instructions.size + byteCount word) ∧
      (∀ base text, EndsWithin (Literal.turn base) (0, 0, text) (text.length + 1)
        (Literal.readDigits? base 0 0 text)) ∧
      (∀ i, EndsWithin Attributes.turn ({}, i) 3 (Attributes.read i)) ∧
      (∀ i, EndsWithin (Token.look i) 0 ((i.advance 1).rest.length + 1) (Token.readText i)) ∧
      (∃ c, EndsWithin (compileTurn settings role) ({}, line.input) (line.rest.length + 1) c ∧
        compilation.result = c.result ∧ compilation.input = c.input) ∧
      (∀ added, Adds settings role 0 line.input added → added.length ≤ byteCount line.rest) ∧
      ∀ p, compilation.result = .ok p → p.length ≤ byteCount line.rest ∧
        stopped.line = line.line ∧ stopped.position = line.line.length := by
  intro compilation stopped
  have whole := endsWithin_compileFrom settings role line.input
  refine ⟨fun d i unread => ?_, Literal.endsWithin_readDigits?, Attributes.endsWithin_read,
    Token.endsWithin_readText, ⟨_, whole, rfl, rfl⟩, fun added adds => adds.length_le,
    fun p compiled => ?_⟩
  · cases turn_eq : compileTurn settings role (d, i) with
    | done c =>
      obtain ⟨rest_eq, -⟩ | ⟨-, reason, result_eq⟩ := input_or_reason_of_done turn_eq
      · exact absurd rest_eq unread
      · exact .inl ⟨c, reason, rfl, result_eq⟩
    | next state =>
      obtain ⟨later, rest⟩ := state
      obtain ⟨word, tail, split_eq, nonempty, rfl, size_le⟩ := exists_word_of_next turn_eq
      exact .inr ⟨later, word, tail, rfl, split_eq, nonempty, size_le⟩
  · obtain ⟨n, -, ends⟩ := whole
    obtain ⟨added, adds, -, program_eq⟩ := exists_adds_of_compileFrom settings role {} line.input
    have position_le := line.position_le
    have input_eq : (compileFrom settings role {} line.input).input =
        line.input.advance line.rest.length := input_of_ends ends compiled
    have position_eq : stopped.position =
        min (line.position + line.rest.length) line.line.length :=
      congrArg (fun i : Input => (line.seek i.position).position) input_eq
    refine ⟨?_, rfl, ?_⟩
    · have p_eq : p = added.map Addition.instruction := program_eq p compiled
      rw [p_eq, List.length_map]
      exact adds.length_le
    · rw [position_eq, length_rest]
      omega

end Cursor

end BusScript
