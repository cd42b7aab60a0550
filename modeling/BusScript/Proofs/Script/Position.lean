import BusScript.Proofs.Script.Colon
import BusScript.Proofs.Script.Composition
import BusScript.Proofs.Script.Movement

/-!
# Where a line is turned down

A rejection that names a position names that of the first token that fails: what is in front of the
token compiles by itself. How much of the token is consumed tells how far it was understood: nothing
of a character that stands for nothing, the opening quote of a text that does not end, and more than
one character where something is wrong with an attribute.
-/

namespace BusScript

theorem Attributes.IsNumber.length_pos {n : Nat} {number : List Char}
    (is_number : IsNumber n number) : 0 < number.length := by
  obtain ⟨l, spelled, -⟩ := is_number
  obtain ⟨c, rest, rfl, -⟩ := spelled.exists_decimal
  exact Nat.succ_pos _

/-- An attribute takes at least its delimiter and a digit. -/
theorem Attributes.Spelled.two_le_length {seen all : Attributes} {text : List Char}
    (spelled : Spelled seen all text) (given : all ≠ seen) : 2 ≤ text.length := by
  cases spelled with
  | done => exact absurd rfl given
  | bits _ is_number | repeats _ is_number =>
    have number_pos := is_number.length_pos
    simp only [List.length_cons, List.length_append]
    omega

theorem Attributes.stuck_of_readValue {i stuck : Input} {give : Nat × Input → Attributes × Input}
    (failed : (readValue i).map give = .error stuck) : stuck = i.advance 1 := by
  rw [readValue_eq] at failed
  split at failed
  next => exact (Except.error.inj failed).symm
  next => contradiction

/-- Where the number of an attribute cannot be read, its delimiter is consumed. -/
theorem Attributes.stuck_of_readOne? {seen : Attributes} {i stuck : Input}
    (failed : readOne? seen i = some (.error stuck)) :
    stuck = i.advance 1 ∧ 1 ≤ i.rest.length := by
  have announced_pos {delimiter : Char} (announced : announces delimiter i.rest = true) :
      1 ≤ i.rest.length := by
    obtain ⟨body, body_eq⟩ := exists_of_announces announced
    rw [body_eq, List.length_cons]
    exact Nat.succ_pos _
  rw [readOne?] at failed
  split at failed
  next bits_follow =>
    rw [Bool.and_eq_true] at bits_follow
    exact ⟨stuck_of_readValue (Option.some.inj failed), announced_pos bits_follow.2⟩
  next =>
    split at failed
    next repeats_follow =>
      rw [Bool.and_eq_true] at repeats_follow
      exact ⟨stuck_of_readValue (Option.some.inj failed), announced_pos repeats_follow.2⟩
    next => contradiction

/-- Where attributes cannot be read, reading stops behind the delimiter of one of them. -/
theorem Attributes.exists_advance_of_readUpTo {n : Nat} {seen : Attributes} {i stuck : Input}
    (failed : readUpTo n seen i = .error stuck) :
    ∃ m, stuck = i.advance m ∧ 1 ≤ m ∧ m ≤ i.rest.length := by
  induction n generalizing seen i with
  | zero => contradiction
  | succ n induction =>
    rw [readUpTo] at failed
    split at failed
    next => contradiction
    next one_eq =>
      cases failed
      obtain ⟨stuck_eq, nonempty⟩ := stuck_of_readOne? one_eq
      exact ⟨1, stuck_eq, Nat.le_refl _, nonempty⟩
    next more behind one_eq =>
      obtain ⟨delimiter, value, announced, value_eq, -⟩ := exists_of_readOne? one_eq
      obtain ⟨body, body_eq⟩ := exists_of_announces announced
      obtain ⟨l, number, tail, -, -, rfl, rfl, -⟩ := spelled_of_readValue value_eq body_eq
      obtain ⟨m, rfl, -, m_le⟩ := induction failed
      rw [Input.rest_advance, List.length_drop] at m_le
      refine ⟨number.length + 1 + m, Input.advance_advance _ _ _, by omega, ?_⟩
      rw [body_eq, List.length_cons, List.length_append] at m_le ⊢
      omega

/-- How much of a token was consumed when a line is turned down because of it. The text begins with
the token, the position is that of its first character, and the number counts characters. -/
inductive Token.Stops (text : List Char) (position : Nat) : Rejection → Nat → Prop
  | unknown (symbol : Char) : Stops text position (.unknownSymbol symbol position) 0
  | literal (decimal : ∀ c ∈ text.head?, c.isDigit = true)
      (unreadable : Literal.read? text = none) : Stops text position (.badNumber position) 0
  | unterminated : Stops text position (.unterminatedText position) 1
  | attribute {n : Nat} (understood : ∀ c ∈ text.head?, c.isDigit = true → Literal.read? text ≠ none)
      (behind : 2 ≤ n) : Stops text position (.badNumber position) n
  | missing {n : Nat} (symbol : Char) (behind : 1 ≤ n) :
      Stops text position (.missingPin symbol position) n
  | repeats {n : Nat} (count : Nat) (behind : 2 ≤ n) :
      Stops text position (.tooManyRepeats count position) n
  | width {n : Nat} (bits : Nat) (behind : 2 ≤ n) :
      Stops text position (.invalidWidth bits position) n
  | invalid {n : Nat} (pin : Nat) (behind : 2 ≤ n) :
      Stops text position (.invalidPin pin position) n
  | inUse {n : Nat} (pin : Nat) (behind : 2 ≤ n) : Stops text position (.pinInUse pin position) n

namespace Token

theorem exists_advance_of_readAttributes {position : Nat} {i : Input} {failure : Failure}
    (failed : readAttributes position i = .error failure) :
    ∃ m, failure = ⟨.badNumber position, i.advance m⟩ ∧ 1 ≤ m ∧ m ≤ i.rest.length := by
  rw [readAttributes] at failed
  split at failed
  next => contradiction
  next stuck_eq =>
    cases failed
    obtain ⟨m, rfl, bounds⟩ := Attributes.exists_advance_of_readUpTo stuck_eq
    exact ⟨m, rfl, bounds⟩

theorem exists_stops_of_readValue {i : Input} {failure : Failure}
    (decimal : ∀ c ∈ i.rest.head?, c.isDigit = true) (failed : readValue i = .error failure) :
    ∃ n, failure.input = i.advance n ∧ n ≤ i.rest.length ∧
      Stops i.rest i.tokenPosition failure.reason n := by
  rw [readValue_eq] at failed
  split at failed
  next unreadable =>
    cases failed
    exact ⟨0, i.advance_zero.symm, Nat.zero_le _, .literal decimal unreadable⟩
  next l length literal_eq =>
    split at failed
    next other attributes_eq =>
      cases failed
      obtain ⟨number, tail, number_eq, rfl, spelled, -⟩ := Literal.spelled_of_read? literal_eq
      obtain ⟨m, rfl, m_pos, m_le⟩ := exists_advance_of_readAttributes attributes_eq
      obtain ⟨d, more, rfl, -⟩ := spelled.exists_decimal
      have understood : Literal.read? i.rest ≠ none := by
        rw [literal_eq]
        exact Option.some_ne_none _
      rw [number_eq, List.length_append, List.length_cons]
      rw [Input.rest_advance, List.length_drop, number_eq, List.length_append,
        List.length_cons] at m_le
      refine ⟨_, Input.advance_advance _ _ _, by omega, ?_⟩
      exact number_eq ▸ .attribute (fun _ _ _ => understood) (by omega)
    next => contradiction

theorem exists_stops_of_readText {i : Input} {failure : Failure} (nonempty : 1 ≤ i.rest.length)
    (failed : readText i = .error failure) :
    ∃ n, failure.input = i.advance n ∧ n ≤ i.rest.length ∧
      Stops i.rest i.tokenPosition failure.reason n := by
  rw [readText] at failed
  split at failed
  next => contradiction
  next =>
    cases failed
    exact ⟨1, rfl, nonempty, .unterminated⟩

theorem exists_stops_of_readCommand {c : Char} {i : Input} {failure : Failure}
    (no_number : ∀ first ∈ i.rest.head?, first.isDigit = false)
    (failed : readCommand c i = .error failure) :
    ∃ n, failure.input = i.advance n ∧ n ≤ i.rest.length ∧
      Stops i.rest i.tokenPosition failure.reason n := by
  rw [readCommand] at failed
  split at failed
  next =>
    cases failed
    exact ⟨0, i.advance_zero.symm, Nat.zero_le _, .unknown c⟩
  next op op_eq =>
    split at failed
    next other attributes_eq =>
      cases failed
      obtain ⟨m, rfl, m_pos, m_le⟩ := exists_advance_of_readAttributes attributes_eq
      rw [Input.rest_advance, List.length_drop] at m_le
      refine ⟨_, Input.advance_advance _ _ _, by omega,
        .attribute (fun first is_first decimal => ?_) (by omega)⟩
      rw [no_number first is_first] at decimal
      contradiction
    next => contradiction

/-- How far a token is read that cannot be read. -/
theorem exists_stops_of_read {c : Char} {text : List Char} {i : Input} {failure : Failure}
    (rest_eq : i.rest = c :: text) (failed : read c i = .error failure) :
    ∃ n, failure.input = i.advance n ∧ n ≤ i.rest.length ∧
      Stops i.rest i.tokenPosition failure.reason n := by
  have head_eq : ∀ first ∈ i.rest.head?, first = c := by
    rw [rest_eq]
    exact fun first is_first => (Option.some.inj is_first).symm
  rw [read] at failed
  split at failed
  next decimal =>
    exact exists_stops_of_readValue (fun first is_first => head_eq first is_first ▸ decimal) failed
  next no_decimal =>
    split at failed
    next => exact exists_stops_of_readText (rest_eq ▸ Nat.succ_pos _) failed
    next =>
      rw [Bool.not_eq_true] at no_decimal
      exact exists_stops_of_readCommand
        (fun first is_first => head_eq first is_first ▸ no_decimal) failed

/-- Where something is wrong with the attributes of a token, at least its first character was read,
and a number too unless what is wrong is that there is none. -/
theorem Stops.of_fault {settings : Settings} {role : Nat → PinRole} {symbol : Char} {op : Operation}
    {position n : Nat} {a : Attributes} {reason : Rejection} {text : List Char}
    (fault : a.Fault settings role symbol op position reason) (some_read : 1 ≤ n)
    (given_read : a ≠ {} → 2 ≤ n) : Stops text position reason n := by
  have given_ne {number : Nat} (given : number ∈ a.bits ∨ number ∈ a.repeats) : a ≠ {} := by
    rintro rfl
    rcases given with given | given <;> contradiction
  cases fault with
  | repeats given _ => exact .repeats _ (given_read (given_ne (.inr given)))
  | missing => exact .missing _ some_read
  | invalid _ _ given _ => exact .invalid _ (given_read (given_ne (.inl given)))
  | inUse _ _ given _ _ => exact .inUse _ (given_read (given_ne (.inl given)))
  | width _ _ given _ => exact .width _ (given_read (given_ne (.inl given)))

/-- How far a token is read that can be read and has something wrong with it. -/
theorem Fault.exists_stops {settings : Settings} {role : Nat → PinRole} {c : Char} {i rest : Input}
    {text : List Char} {t : Token} {reason : Rejection} (rest_eq : i.rest = c :: text)
    (found : read c i = .ok (t, rest)) (fault : t.Fault settings role c i.tokenPosition reason) :
    ∃ n, rest = i.advance n ∧ n ≤ i.rest.length ∧ Stops i.rest i.tokenPosition reason n := by
  obtain ⟨word, tail, word_eq, rfl, spelled, -⟩ := spelled_of_read rest_eq found
  refine ⟨word.length, rfl, ?_, ?_⟩
  · rw [word_eq, List.length_append]
    exact Nat.le_add_right _ _
  · cases spelled with
    | value literal behind =>
      obtain ⟨d, more, rfl, -⟩ := literal.exists_decimal
      refine .of_fault fault (Nat.succ_pos _) fun given => ?_
      have behind_length := behind.two_le_length given
      rw [List.length_append]
      omega
    | command _ behind =>
      refine .of_fault fault (Nat.succ_pos _) fun given => ?_
      have behind_length := behind.two_le_length given
      rw [List.length_cons]
      omega
    | text => exact absurd fault id

end Token

namespace Draft

variable {settings : Settings} {role : Nat → PinRole} {c : Char} {start rest : Input} {d : Draft}
  {stopped : Compilation} {reason : Rejection}

theorem input_of_append {t : Token} (fault : t.Fault settings role c start.tokenPosition reason)
    (failed : d.append settings role c start rest t = .error stopped) : stopped.input = rest := by
  cases t with
  | value | command =>
    obtain ⟨reason, rfl⟩ := exists_fail_of_pushCommand failed
    rfl
  | text => exact absurd fault id

end Draft

namespace FailsAt

variable {settings : Settings} {role : Nat → PinRole} {reason : Rejection} {c : Char}
  {text : List Char} {i : Input}

/-- How far a line is read the first token of which fails. -/
theorem exists_stops (fails : FailsAt settings role reason c i) (rest_eq : i.rest = c :: text)
    (ordinary : isSeparator c = false) (d : Draft) :
    ∃ n, (compileFrom settings role d i).input = i.advance n ∧ n ≤ i.rest.length ∧
      Token.Stops i.rest i.tokenPosition reason n := by
  rw [compileFrom_of_cons rest_eq, ordinary, if_neg Bool.false_ne_true]
  cases fails with
  | unread read_eq reason_eq =>
    subst reason_eq
    rw [read_eq]
    exact Token.exists_stops_of_read rest_eq read_eq
  | @unfit t rest read_eq fault =>
    obtain ⟨stopped, append_eq, -⟩ : ∃ stopped, d.append settings role c i rest t =
        .error stopped ∧ stopped.result = .error reason := Draft.exists_error_of_fault fault
    simp only [read_eq, append_eq, Draft.input_of_append fault append_eq]
    exact fault.exists_stops rest_eq read_eq

/-- A symbol is unknown if no token begins with it. What is behind it does not matter. -/
theorem unknownSymbol_iff {symbol : Char} {position : Nat} :
    FailsAt settings role (.unknownSymbol symbol position) c i ↔
      symbol = c ∧ position = i.tokenPosition ∧ c.isDigit = false ∧ c ≠ '"' ∧
        Operation.ofSymbol? c = none := by
  constructor
  · rintro (⟨read_eq, reason_eq⟩ | ⟨-, fault⟩)
    · rw [Token.reason_of_read read_eq, Token.unreadable] at reason_eq
      split at reason_eq
      next => contradiction
      next no_quote =>
        split at reason_eq
        next => contradiction
        next nothing =>
          rw [not_or, Bool.not_eq_true, Bool.not_eq_true, Option.isSome_eq_false_iff,
            Option.isNone_iff_eq_none] at nothing
          cases reason_eq
          exact ⟨rfl, rfl, nothing.1, no_quote, nothing.2⟩
    · rename_i t _
      cases t with
      | value => cases fault
      | command => cases fault
      | text => exact absurd fault id
  · rintro ⟨rfl, rfl, no_digit, no_quote, no_symbol⟩
    have failed : Token.read symbol i = .error ⟨.unknownSymbol symbol i.tokenPosition, i⟩ := by
      rw [Token.read, no_digit, if_neg Bool.false_ne_true, if_neg no_quote, Token.readCommand,
        no_symbol]
    exact .unread failed rfl

end FailsAt

section Compile

open IsScript

variable {settings : Settings} {role : Nat → PinRole} {d : Draft} {i : Input} {reason : Rejection}
  {tokens : List Token} {front text : List Char} {c : Char}

/-- How far a line is read in which a token fails behind others. -/
theorem exists_stops_of_isBeginning (rest_eq : i.rest = front ++ c :: text)
    (beginning : IsBeginning Read (c :: text) tokens front)
    (valid : ∀ t ∈ tokens, t.Fits settings ∧ t.PinFree role)
    (room : d.Room settings (tokens.flatMap (Token.denote settings)))
    (ordinary : isSeparator c = false)
    (fails : FailsAt settings role reason c (i.advance front.length)) :
    ∃ n, (compileFrom settings role d i).input = i.advance (front.length + n) ∧
      n ≤ (c :: text).length ∧
      Token.Stops (c :: text) (i.position + front.length + 1) reason n := by
  obtain ⟨later, -, compile_eq⟩ := compileFrom_of_isBeginning beginning rest_eq valid room
  have behind_eq : (i.advance front.length).rest = c :: text := by
    rw [Input.rest_advance, rest_eq, List.drop_left]
  obtain ⟨n, input_eq, n_le, stops⟩ := fails.exists_stops behind_eq ordinary later
  rw [behind_eq] at n_le stops
  rw [Input.advance_advance] at input_eq
  exact ⟨n, compile_eq ▸ input_eq, n_le, stops⟩

end Compile

namespace Cursor

/-- The characters from the mark up to an index of the line. -/
def upTo (index : Nat) (c : Cursor) : List Char :=
  (c.line.take index).drop c.position

theorem rest_eq_append {c : Cursor} {index : Nat} (behind : c.position ≤ index) :
    c.rest = c.upTo index ++ c.line.drop index := by
  obtain ⟨n, rfl⟩ := Nat.exists_eq_add_of_le behind
  rw [upTo, List.drop_take, Nat.add_sub_cancel_left, ← List.drop_drop, rest,
    List.take_append_drop]

theorem upTo_of_rest_eq {c : Cursor} {front text : List Char} (rest_eq : c.rest = front ++ text) :
    c.upTo (c.position + front.length) = front ∧
      c.line.drop (c.position + front.length) = text := by
  rw [upTo, List.drop_take, Nat.add_sub_cancel_left, ← List.drop_drop]
  rw [rest] at rest_eq
  rw [rest_eq]
  exact ⟨List.take_left, List.drop_left⟩

/-- Lines that are the same up to a character are divided by it in the same way. -/
theorem exists_rest_eq_append {c other : Cursor} {index : Nat} {symbol : Char} {text : List Char}
    (behind : c.position ≤ index) (same_place : other.position = c.position)
    (same_front : other.line.take (index + 1) = c.line.take (index + 1))
    (text_eq : c.line.drop index = symbol :: text) :
    ∃ other_text, other.line.drop index = symbol :: other_text ∧
      other.rest = c.upTo index ++ symbol :: other_text := by
  have symbol_eq : other.line[index]? = some symbol := by
    rw [← List.getElem?_take_of_succ, same_front, List.getElem?_take_of_succ, ← List.head?_drop,
      text_eq, List.head?_cons]
  obtain ⟨inside, rfl⟩ := List.getElem?_eq_some_iff.mp symbol_eq
  have upTo_eq : other.upTo index = c.upTo index := by
    have shorter := congrArg (List.take index) same_front
    rw [List.take_take, List.take_take, Nat.min_eq_left (Nat.le_succ _)] at shorter
    rw [upTo, upTo, shorter, same_place]
  refine ⟨_, List.drop_eq_getElem_cons inside, ?_⟩
  rw [← List.drop_eq_getElem_cons inside, ← upTo_eq]
  exact rest_eq_append (same_place ▸ behind)

section Compile

open IsScript

variable {settings : Settings} {role : Nat → PinRole} {line : Cursor} {reason : Rejection}
  {tokens : List Token} {front text : List Char} {c : Char}

/-- A line in which a token fails behind others is turned down for that, and its mark is set to
where reading stopped. -/
theorem exists_stops_of_isBeginning (rest_eq : line.rest = front ++ c :: text)
    (beginning : IsBeginning Read (c :: text) tokens front)
    (valid : ∀ t ∈ tokens, t.Fits settings ∧ t.PinFree role)
    (room : Draft.Room settings {} (tokens.flatMap (Token.denote settings)))
    (ordinary : isSeparator c = false)
    (fails : FailsAt settings role reason c (line.input.advance front.length)) :
    (line.compile settings role).1.result = .error reason ∧
      (line.compile settings role).2.input = (line.compile settings role).1.input ∧
      ∃ n, (line.compile settings role).2.position = line.position + front.length + n ∧
        Token.Stops (c :: text) (line.position + front.length + 1) reason n := by
  have result_eq : (line.compile settings role).1.result = .error reason :=
    compileFrom_eq_error_iff.mpr (.failed rest_eq beginning valid room ordinary fails)
  obtain ⟨n, input_eq, n_le, stops⟩ :=
    BusScript.exists_stops_of_isBeginning rest_eq beginning valid room ordinary fails
  have inside : front.length + n ≤ line.rest.length := by
    rw [rest_eq, List.length_append]
    exact Nat.add_le_add_left n_le _
  have stopped_eq : (line.compile settings role).2.input = line.input.advance (front.length + n) := by
    rw [← input_seek_add inside]
    exact congrArg (fun i : Input => (line.seek i.position).input) input_eq
  refine ⟨result_eq, stopped_eq.trans input_eq.symm, n, ?_, stops⟩
  rw [Nat.add_assoc]
  exact congrArg Input.position stopped_eq

/-- An unknown symbol is reported in the same way on a line that is the same up to it, unless there
it begins a repeat count where one is awaited. -/
theorem result_of_unknown_iff {symbol : Char} {position : Nat} {other_text : List Char}
    (beginning : IsBeginning Read (symbol :: text) tokens front)
    (valid : ∀ t ∈ tokens, t.Fits settings ∧ t.PinFree role)
    (room : Draft.Room settings {} (tokens.flatMap (Token.denote settings)))
    (ordinary : isSeparator symbol = false)
    (unknown : symbol.isDigit = false ∧ symbol ≠ '"' ∧ Operation.ofSymbol? symbol = none)
    (rest_eq : line.rest = front ++ symbol :: other_text)
    (position_eq : position = line.position + front.length + 1) :
    (line.compile settings role).1.result = .error (.unknownSymbol symbol position) ↔
      ¬ (AwaitsCount front ∧ BeginsCount (symbol :: other_text)) := by
  subst position_eq
  constructor
  · rintro failed ⟨awaits, begins⟩
    cases turnedDown_of_compileFrom failed with
    | @failed _ before behind c _ other_eq reads _ _ _ fails =>
      have length_eq : before.length = front.length := by
        have position_eq := fails.position?_eq
        rw [Rejection.position?, Option.some.injEq] at position_eq
        exact Nat.add_left_cancel (Nat.succ.inj position_eq).symm
      have same : before ++ c :: behind = front ++ symbol :: other_text := other_eq ▸ rest_eq
      obtain ⟨rfl, text_eq⟩ := List.append_inj same length_eq
      exact reads.not_beginsCount awaits (text_eq ▸ begins)
  · intro silent
    have fails : FailsAt settings role
        (.unknownSymbol symbol (line.position + front.length + 1)) symbol
        (line.input.advance front.length) :=
      FailsAt.unknownSymbol_iff.mpr ⟨rfl, rfl, unknown⟩
    have reads := beginning.of_unknown unknown.2.2 fun awaits begins => silent ⟨awaits, begins⟩
    exact (exists_stops_of_isBeginning rest_eq reads valid room ordinary fails).1

end Compile

/-- A rejection that names a position names that of the first token that fails. What is in front of
the token compiles by itself, and an unknown symbol is one by what is in front of it. -/
theorem stops_of_compile {settings : Settings} {role : Nat → PinRole} {line : Cursor}
    {reason : Rejection} {position : Nat}
    (failed : (line.compile settings role).1.result = .error reason)
    (positioned : reason.position? = some position) :
    let stopped := (line.compile settings role).2
    ∃ index symbol n, position = index + 1 ∧ line.position ≤ index ∧
      line.line[index]? = some symbol ∧ isSeparator symbol = false ∧
      (∃ p, compileText settings role (line.upTo index) = .ok p) ∧
      stopped.input = (line.compile settings role).1.input ∧ stopped.line = line.line ∧
      stopped.position = index + n ∧ index + n ≤ line.line.length ∧
      Token.Stops (line.line.drop index) position reason n ∧
      ∀ unknown, reason = .unknownSymbol unknown position → unknown = symbol ∧
        ∀ other : Cursor, other.position = line.position →
          other.line.take position = line.line.take position →
          ((other.compile settings role).1.result = .error reason ↔
            ¬ (AwaitsCount (line.upTo index) ∧ BeginsCount (other.line.drop index))) := by
  intro stopped
  cases turnedDown_of_compileFrom failed with
  | full => contradiction
  | @failed tokens front text symbol _ rest_eq beginning valid room ordinary fails =>
    obtain ⟨front_eq, text_eq⟩ := upTo_of_rest_eq rest_eq
    obtain rfl : position = line.position + front.length + 1 := by
      rw [fails.position?_eq, Option.some.injEq] at positioned
      exact positioned.symm
    obtain ⟨-, input_eq, n, position_eq, stops⟩ :=
      exists_stops_of_isBeginning rest_eq beginning valid room ordinary fails
    have symbol_eq : line.line[line.position + front.length]? = some symbol := by
      rw [← List.head?_drop, text_eq, List.head?_cons]
    refine ⟨_, symbol, n, rfl, Nat.le_add_right _ _, symbol_eq, ordinary,
      ⟨tokens.flatMap (Token.denote settings), ?_⟩, input_eq, rfl, position_eq,
      position_eq ▸ stopped.position_le, text_eq.symm ▸ stops, ?_⟩
    · rw [front_eq]
      exact compileText_of_isBeginning beginning valid room
    · rintro unknown rfl
      obtain ⟨rfl, -, no_token⟩ := FailsAt.unknownSymbol_iff.mp fails
      refine ⟨rfl, fun other same_place same_front => ?_⟩
      obtain ⟨other_text, other_eq, other_rest_eq⟩ :=
        exists_rest_eq_append (Nat.le_add_right _ _) same_place same_front text_eq
      rw [front_eq] at other_rest_eq
      rw [front_eq, other_eq]
      exact result_of_unknown_iff beginning valid room ordinary no_token other_rest_eq
        (same_place ▸ rfl)

/-- A second repeat count is none: its colon is reported with and without a digit behind it. -/
theorem stops_at_second_colon :
    let ends := ofString "r:5:"
    let counts := ofString "r:5:7"
    let rejected : Except Rejection Program := .error (.unknownSymbol ':' 4)
    (ends.compile {} fun _ => .io).1.result = rejected ∧
      (ends.compile {} fun _ => .io).2.position = 3 ∧
      (∃ p, compileText {} (fun _ => .io) (ends.upTo 3) = .ok p) ∧
      (counts.compile {} fun _ => .io).1.result = rejected := by
  intro ends counts rejected
  have failed : (ends.compile {} fun _ => .io).1.result = rejected := by cbv
  obtain ⟨index, symbol, n, position_eq, -, -, -, compiles, -, -, stopped_eq, -, stops, unknown⟩ :=
    stops_of_compile failed rfl
  obtain rfl : 3 = index := Nat.succ.inj position_eq
  cases stops
  obtain ⟨-, unknown⟩ := unknown _ rfl
  have five : Attributes.IsNumber 5 ['5'] := Attributes.isNumber_toDigits (by decide)
  have spelled : Token.Spelled (.command 'r' .read { repeats := some 5 }) ['r', ':', '5'] :=
    .command rfl (.repeats rfl five .done)
  have has_count : ¬ AwaitsCount ['r', ':', '5'] := fun awaits =>
    absurd ((awaitsCount_iff_of_spelled spelled).mp awaits) (by simp [Token.Uncounted])
  exact ⟨failed, stopped_eq, compiles,
    (unknown counts rfl (by decide)).mpr fun both => has_count both.1⟩

/-- Behind a command, a colon is unknown without a digit and begins a count with one. -/
theorem unknown_colon_depends_on_digit :
    ¬ ∀ (line other : Cursor) (symbol : Char) (position : Nat),
      (line.compile {} fun _ => .io).1.result = .error (.unknownSymbol symbol position) →
      other.position = line.position → other.line.take position = line.line.take position →
      (other.compile {} fun _ => .io).1.result = .error (.unknownSymbol symbol position) := by
  intro independent
  have failed : ((ofString "r:").compile {} fun _ => .io).1.result =
      .error (.unknownSymbol ':' 2) := by cbv
  have compiled : ((ofString "r:5").compile {} fun _ => .io).1.result =
      .ok [{ op := .read, repeats := 5, hasRepeats := true }] := by cbv
  have impossible := independent _ (ofString "r:5") ':' 2 failed rfl (by decide)
  rw [compiled] at impossible
  contradiction

end Cursor

end BusScript
