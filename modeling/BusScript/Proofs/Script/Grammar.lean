import BusScript.Proofs.Script.Numeral
import BusScript.Script.Token
import Mathlib.Data.List.TakeWhile

/-!
# The grammar of a script

How attributes and tokens are written, and that reading takes them off the beginning of a text: what
is read was written there, it is the longest such thing, and where something that cannot continue it
comes next, it is what is read.
-/

namespace BusScript

/-- A text that cannot continue a token: it begins neither with a letter or a digit nor with a
number behind the delimiter of an attribute. -/
structure Clear (text : List Char) : Prop where
  quiet : Quiet text
  no_bits : Attributes.announces '.' text = false
  no_repeats : Attributes.announces ':' text = false

theorem isSeparator_of_isAlphanum {c : Char} (alphanumeric : c.isAlphanum = true) :
    isSeparator c = false := by
  have bounds : 48 ≤ c.toNat ∧ c.toNat ≤ 122 ∧ c.toNat ≠ 62 := by
    delta Char.isAlphanum Char.isAlpha Char.isUpper Char.isLower Char.isDigit at alphanumeric
    simp only [Bool.or_eq_true, Bool.and_eq_true, decide_eq_true_eq, UInt32.le_iff_toNat_le,
      ge_iff_le] at alphanumeric
    simp only [Char.toNat]
    simp at alphanumeric ⊢
    omega
  simp only [isSeparator, Bool.or_eq_false_iff, decide_eq_false_iff_not, beq_eq_false_iff_ne]
  refine ⟨⟨⟨?_, ?_⟩, ?_⟩, ?_⟩
  · intro (low : c.toNat ≤ 32)
    omega
  · intro (high : 126 < c.toNat)
    omega
  · rintro rfl
    exact bounds.2.2 rfl
  · rintro rfl
    exact absurd bounds.1 (by decide)

/-- What stands between tokens cannot continue one, and neither can the end of the text. -/
theorem clear_of_isSeparator {text : List Char}
    (separated : ∀ c ∈ text.head?, isSeparator c = true) : Clear text := by
  have not_announced (delimiter : Char) (ordinary : isSeparator delimiter = false) :
      Attributes.announces delimiter text = false := by
    rw [← Bool.not_eq_true]
    intro announced
    match text, announced with
    | c :: _ :: _, announced =>
      rw [Attributes.announces, Bool.and_eq_true, beq_iff_eq] at announced
      obtain ⟨rfl, -⟩ := announced
      rw [separated c rfl] at ordinary
      contradiction
  refine ⟨?_, not_announced '.' (by decide), not_announced ':' (by decide)⟩
  intro c c_eq
  rw [← Bool.not_eq_true]
  intro alphanumeric
  have separator := separated c c_eq
  rw [isSeparator_of_isAlphanum alphanumeric] at separator
  contradiction

theorem clear_nil : Clear [] :=
  clear_of_isSeparator (by simp)

namespace Attributes

/-- How the number of an attribute is written: as a literal, in any notation. -/
def IsNumber (n : Nat) (text : List Char) : Prop :=
  ∃ l : Literal, l.Spelled text ∧ l.value.toNat = n

theorem isNumber_toDigits {n : Nat} (n_lt : n < UInt32.size) : IsNumber n (Nat.toDigits 10 n) := by
  have value_eq : (UInt32.ofNat n).toNat = n := UInt32.toNat_ofNat_of_lt' n_lt
  have spelled := Literal.spelled_toDigits (UInt32.ofNat n)
  rw [value_eq] at spelled
  exact ⟨_, spelled, value_eq⟩

/-- How attributes are written behind those that were given already: each of the two at most once,
in any order. -/
inductive Spelled : Attributes → Attributes → List Char → Prop
  | done {seen : Attributes} : Spelled seen seen []
  | bits {seen all : Attributes} {n : Nat} {number more : List Char} (fresh : seen.bits = none)
      (is_number : IsNumber n number) (later : Spelled { seen with bits := some n } all more) :
      Spelled seen all ('.' :: (number ++ more))
  | repeats {seen all : Attributes} {n : Nat} {number more : List Char}
      (fresh : seen.repeats = none) (is_number : IsNumber n number)
      (later : Spelled { seen with repeats := some n } all more) :
      Spelled seen all (':' :: (number ++ more))

/-- A text that cannot continue attributes: it begins neither with a letter or a digit nor with an
attribute that is not given yet. -/
structure EndedBy (all : Attributes) (text : List Char) : Prop where
  quiet : Quiet text
  no_bits : all.bits = none → announces '.' text = false
  no_repeats : all.repeats = none → announces ':' text = false

/-- The number of attributes that can still be given. -/
def missing (seen : Attributes) : Nat :=
  (if seen.bits.isNone then 1 else 0) + if seen.repeats.isNone then 1 else 0

theorem missing_of_bits {seen : Attributes} (fresh : seen.bits = none) (n : Nat) :
    seen.missing = { seen with bits := some n }.missing + 1 := by
  simp [missing, fresh, Nat.add_comm]

theorem missing_of_repeats {seen : Attributes} (fresh : seen.repeats = none) (n : Nat) :
    seen.missing = { seen with repeats := some n }.missing + 1 := by
  simp [missing, fresh]

theorem IsNumber.announces {n : Nat} {number : List Char} (is_number : IsNumber n number)
    (delimiter : Char) (more : List Char) :
    announces delimiter (delimiter :: (number ++ more)) = true := by
  obtain ⟨l, spelled, -⟩ := is_number
  obtain ⟨c, rest, rfl, decimal⟩ := spelled.exists_decimal
  simp [Attributes.announces, decimal]

theorem Spelled.quiet_append {seen all : Attributes} {text rest : List Char}
    (spelled : Spelled seen all text) (quiet : Quiet rest) : Quiet (text ++ rest) := by
  cases spelled with
  | done => exact quiet
  | bits =>
    intro c c_eq
    obtain rfl := Option.some.inj c_eq
    rfl
  | repeats =>
    intro c c_eq
    obtain rfl := Option.some.inj c_eq
    rfl

theorem Spelled.isAlphanum_last {seen all : Attributes} {text : List Char}
    (spelled : Spelled seen all text) : ∀ c ∈ text.getLast?, c.isAlphanum = true := by
  have last_of {n : Nat} {delimiter : Char} {number more : List Char}
      (is_number : IsNumber n number) (later : ∀ c ∈ more.getLast?, c.isAlphanum = true) :
      ∀ c ∈ (delimiter :: (number ++ more)).getLast?, c.isAlphanum = true := by
    obtain ⟨l, spelled, -⟩ := is_number
    obtain ⟨d, digits, rfl, -⟩ := spelled.exists_decimal
    intro c last
    rw [← List.singleton_append, List.getLast?_append_of_ne_nil _ (by simp),
      List.getLast?_append, Option.mem_def, Option.or_eq_some_iff] at last
    rcases last with last | ⟨-, last⟩
    · exact later c last
    · exact spelled.isAlphanum (List.mem_of_getLast? last)
  induction spelled with
  | done => simp
  | bits _ is_number _ induction => exact last_of is_number induction
  | repeats _ is_number _ induction => exact last_of is_number induction

theorem readValue_append {i : Input} {delimiter : Char} {n : Nat} {number rest : List Char}
    (is_number : IsNumber n number) (quiet : Quiet rest)
    (rest_eq : i.rest = delimiter :: (number ++ rest)) :
    readValue i = .ok (n, i.advance (number.length + 1)) := by
  obtain ⟨l, spelled, rfl⟩ := is_number
  have body_eq : (i.advance 1).rest = number ++ rest := by
    rw [Input.rest_advance, rest_eq]
    rfl
  simp only [readValue_eq, body_eq, Literal.read?_append spelled quiet, Input.advance_advance,
    Nat.add_comm 1]

theorem exists_of_announces {delimiter : Char} {text : List Char}
    (announced : announces delimiter text = true) : ∃ body, text = delimiter :: body := by
  match text, announced with
  | c :: _ :: _, announced =>
    rw [announces, Bool.and_eq_true, beq_iff_eq] at announced
    exact ⟨_, by rw [announced.1]⟩

theorem announces_bits_of_repeats {text : List Char} (announced : announces ':' text = true) :
    announces '.' text = false := by
  obtain ⟨body, rfl⟩ := exists_of_announces announced
  cases body <;> rfl

theorem readOne?_eq_none_iff {seen : Attributes} {i : Input} :
    readOne? seen i = none ↔
      (seen.bits = none → announces '.' i.rest = false) ∧
        (seen.repeats = none → announces ':' i.rest = false) := by
  rw [readOne?]
  split
  next bits_follow =>
    rw [Bool.and_eq_true, Option.isNone_iff_eq_none] at bits_follow
    simp [bits_follow]
  next no_bits =>
    split
    next repeats_follow =>
      rw [Bool.and_eq_true, Option.isNone_iff_eq_none] at repeats_follow
      simp [repeats_follow]
    next no_repeats => simp_all

/-- An attribute that was not given yet is given, with a number behind its delimiter. -/
def Given (seen : Attributes) (delimiter : Char) (n : Nat) (next : Attributes) : Prop :=
  (delimiter = '.' ∧ seen.bits = none ∧ next = { seen with bits := some n }) ∨
    (delimiter = ':' ∧ seen.repeats = none ∧ next = { seen with repeats := some n })

theorem Given.missing_eq {seen next : Attributes} {delimiter : Char} {n : Nat}
    (given : Given seen delimiter n next) : seen.missing = next.missing + 1 := by
  rcases given with ⟨-, fresh, rfl⟩ | ⟨-, fresh, rfl⟩
  · exact missing_of_bits fresh n
  · exact missing_of_repeats fresh n

/-- An attribute that was not given yet is read where it is announced and its number can be read. -/
theorem readOne?_of_given {seen next : Attributes} {delimiter : Char} {n : Nat} {i rest : Input}
    (given : Given seen delimiter n next) (announced : announces delimiter i.rest = true)
    (value_eq : readValue i = .ok (n, rest)) : readOne? seen i = some (.ok (next, rest)) := by
  rcases given with ⟨rfl, fresh, rfl⟩ | ⟨rfl, fresh, rfl⟩
  · rw [readOne?, fresh, announced, value_eq]
    rfl
  · rw [readOne?, announces_bits_of_repeats announced, fresh, announced, value_eq, Bool.and_false,
      if_neg (by simp)]
    rfl

/-- One attribute is read off the beginning of a text, and then the others. -/
theorem readUpTo_cons {n : Nat} {seen next all : Attributes} {i : Input} {delimiter : Char}
    {number more rest : List Char} (rest_eq : i.rest = delimiter :: (number ++ more) ++ rest)
    (one_eq : readOne? seen i = some (.ok (next, i.advance (number.length + 1))))
    (later : ∀ {j}, j.rest = more ++ rest → readUpTo n next j = .ok (all, j.advance more.length)) :
    readUpTo (n + 1) seen i = .ok (all, i.advance (delimiter :: (number ++ more)).length) := by
  have later_eq : (i.advance (number.length + 1)).rest = more ++ rest := by
    rw [Input.rest_advance, rest_eq, List.cons_append, List.append_assoc, List.drop_succ_cons,
      List.drop_left]
  rw [readUpTo, one_eq]
  simp only
  rw [later later_eq, Input.advance_advance, List.length_cons, List.length_append,
    Nat.add_right_comm]

theorem readUpTo_append_of_given {n value : Nat} {seen next all : Attributes} {i : Input}
    {delimiter : Char} {number more rest : List Char} (given : Given seen delimiter value next)
    (is_number : IsNumber value number) (quiet : Quiet (more ++ rest))
    (rest_eq : i.rest = delimiter :: (number ++ more) ++ rest) (enough : seen.missing ≤ n)
    (later : ∀ {n j}, next.missing ≤ n → j.rest = more ++ rest →
      readUpTo n next j = .ok (all, j.advance more.length)) :
    readUpTo n seen i = .ok (all, i.advance (delimiter :: (number ++ more)).length) := by
  rw [given.missing_eq] at enough
  obtain ⟨n, rfl⟩ : ∃ m, n = m + 1 := ⟨n - 1, by omega⟩
  refine readUpTo_cons rest_eq ?_ (later (Nat.le_of_succ_le_succ enough))
  rw [List.cons_append, List.append_assoc] at rest_eq
  refine readOne?_of_given given ?_ (readValue_append is_number quiet rest_eq)
  rw [rest_eq]
  exact is_number.announces delimiter _

theorem readUpTo_append {n : Nat} {seen all : Attributes} {i : Input} {text rest : List Char}
    (spelled : Spelled seen all text) (enough : seen.missing ≤ n) (ends : all.EndedBy rest)
    (rest_eq : i.rest = text ++ rest) : readUpTo n seen i = .ok (all, i.advance text.length) := by
  induction spelled generalizing n i with
  | @done seen =>
    rw [List.nil_append] at rest_eq
    have none_follows : readOne? seen i = none := by
      rw [readOne?_eq_none_iff, rest_eq]
      exact ⟨ends.no_bits, ends.no_repeats⟩
    cases n with
    | zero => simp [readUpTo]
    | succ n => simp [readUpTo, none_follows]
  | bits fresh is_number later induction =>
    exact readUpTo_append_of_given (.inl ⟨rfl, fresh, rfl⟩) is_number
      (later.quiet_append ends.quiet) rest_eq enough fun enough => induction enough ends
  | repeats fresh is_number later induction =>
    exact readUpTo_append_of_given (.inr ⟨rfl, fresh, rfl⟩) is_number
      (later.quiet_append ends.quiet) rest_eq enough fun enough => induction enough ends

/-- The number of an attribute that is read is the longest literal behind the delimiter. -/
theorem spelled_of_readValue {i rest : Input} {delimiter : Char} {n : Nat} {body : List Char}
    (found : readValue i = .ok (n, rest)) (rest_eq : i.rest = delimiter :: body) :
    ∃ l : Literal, ∃ number tail, l.value.toNat = n ∧ l.Spelled number ∧ body = number ++ tail ∧
      rest = i.advance (number.length + 1) ∧
      ∀ other more, Literal.Spelled other more → more <+: number ++ tail →
        more.length ≤ number.length := by
  have body_eq : (i.advance 1).rest = body := by
    rw [Input.rest_advance, rest_eq]
    rfl
  rw [readValue_eq, body_eq] at found
  split at found
  next => contradiction
  next l length literal_eq =>
    cases found
    obtain ⟨number, tail, rfl, rfl, spelled, longest⟩ := Literal.spelled_of_read? literal_eq
    refine ⟨l, number, tail, rfl, spelled, rfl, ?_, longest⟩
    rw [Input.advance_advance, Nat.add_comm]

theorem Given.spelled_cons {seen next all : Attributes} {delimiter : Char} {n : Nat}
    {number more : List Char} (given : Given seen delimiter n next)
    (is_number : IsNumber n number) (later : Spelled next all more) :
    Spelled seen all (delimiter :: (number ++ more)) := by
  rcases given with ⟨rfl, fresh, rfl⟩ | ⟨rfl, fresh, rfl⟩
  · exact .bits fresh is_number later
  · exact .repeats fresh is_number later

/-- No attribute is longer than the one that was read and those behind it. -/
theorem Spelled.length_le_of_longest {l : Literal} {delimiter : Char} {number tail text : List Char}
    {seen next other : Attributes} {bound : Nat} (spelled : l.Spelled number)
    (longest : ∀ other more, Literal.Spelled other more → more <+: number ++ tail →
      more.length ≤ number.length)
    (given : Given seen delimiter l.value.toNat next)
    (later : ∀ other more, Spelled next other more → more <+: tail → more.length ≤ bound)
    (otherSpelled : Spelled seen other text) (front : text <+: delimiter :: (number ++ tail)) :
    text.length ≤ number.length + 1 + bound := by
  have step {value : Nat} {otherNumber more : List Char} {given : Attributes}
      (is_number : IsNumber value otherNumber) (given_spelled : Spelled given other more)
      (behind : otherNumber ++ more <+: number ++ tail)
      (given_eq : value = l.value.toNat → given = next) :
      (otherNumber ++ more).length ≤ number.length + bound := by
    obtain ⟨otherLiteral, otherLiteralSpelled, rfl⟩ := is_number
    have quiet := given_spelled.quiet_append clear_nil.quiet
    rw [List.append_nil] at quiet
    refine Literal.length_append_le_of_longest spelled otherLiteralSpelled longest quiet behind ?_
    rintro rfl more_front
    rw [given_eq (by rw [otherLiteralSpelled.unique spelled])] at given_spelled
    exact later other more given_spelled more_front
  cases otherSpelled with
  | done => exact Nat.zero_le _
  | bits fresh is_number given_spelled =>
    obtain ⟨rfl, behind⟩ := List.cons_prefix_cons.mp front
    rcases given with ⟨-, -, rfl⟩ | ⟨impossible, -, -⟩
    · have := step is_number given_spelled behind (by rintro rfl; rfl)
      rw [List.length_cons]
      omega
    · contradiction
  | repeats fresh is_number given_spelled =>
    obtain ⟨rfl, behind⟩ := List.cons_prefix_cons.mp front
    rcases given with ⟨impossible, -, -⟩ | ⟨-, -, rfl⟩
    · contradiction
    · have := step is_number given_spelled behind (by rintro rfl; rfl)
      rw [List.length_cons]
      omega

theorem exists_of_map_readValue {i : Input} {found : Attributes × Input}
    {give : Nat × Input → Attributes × Input} (found_eq : (readValue i).map give = .ok found) :
    ∃ n rest, readValue i = .ok (n, rest) ∧ give (n, rest) = found := by
  cases value_eq : readValue i with
  | error stuck =>
    rw [value_eq] at found_eq
    contradiction
  | ok read =>
    rw [value_eq] at found_eq
    exact ⟨read.1, read.2, rfl, Except.ok.inj found_eq⟩

theorem exists_of_readOne? {seen next : Attributes} {i rest : Input}
    (found : readOne? seen i = some (.ok (next, rest))) :
    ∃ delimiter n, announces delimiter i.rest = true ∧ readValue i = .ok (n, rest) ∧
      Given seen delimiter n next := by
  rw [readOne?] at found
  split at found
  next bits_follow =>
    rw [Bool.and_eq_true, Option.isNone_iff_eq_none] at bits_follow
    obtain ⟨n, behind, value_eq, rfl, rfl⟩ := exists_of_map_readValue (Option.some.inj found)
    exact ⟨'.', n, bits_follow.2, value_eq, .inl ⟨rfl, bits_follow.1, rfl⟩⟩
  next =>
    split at found
    next repeats_follow =>
      rw [Bool.and_eq_true, Option.isNone_iff_eq_none] at repeats_follow
      obtain ⟨n, behind, value_eq, rfl, rfl⟩ := exists_of_map_readValue (Option.some.inj found)
      exact ⟨':', n, repeats_follow.2, value_eq, .inr ⟨rfl, repeats_follow.1, rfl⟩⟩
    next => contradiction

theorem Spelled.length_eq_zero {seen other : Attributes} {text more : List Char}
    (nothing : (seen.bits = none → announces '.' text = false) ∧
      (seen.repeats = none → announces ':' text = false))
    (spelled : Spelled seen other more) (front : more <+: text) : more.length = 0 := by
  obtain ⟨tail, rfl⟩ := front
  cases spelled with
  | done => rfl
  | bits fresh is_number _ =>
    have silent := nothing.1 fresh
    rw [List.cons_append, List.append_assoc, is_number.announces] at silent
    contradiction
  | repeats fresh is_number _ =>
    have silent := nothing.2 fresh
    rw [List.cons_append, List.append_assoc, is_number.announces] at silent
    contradiction

/-- What is read of attributes was written there, and no attributes that begin there are longer. -/
theorem spelled_of_readUpTo {n : Nat} {seen all : Attributes} {i rest : Input}
    (found : readUpTo n seen i = .ok (all, rest)) (enough : seen.missing ≤ n) :
    ∃ text tail, i.rest = text ++ tail ∧ rest = i.advance text.length ∧ Spelled seen all text ∧
      ∀ other more, Spelled seen other more → more <+: i.rest → more.length ≤ text.length := by
  induction n generalizing seen i with
  | zero =>
    simp only [readUpTo, Except.ok.injEq, Prod.mk.injEq] at found
    obtain ⟨rfl, rfl⟩ := found
    have complete : seen.bits ≠ none ∧ seen.repeats ≠ none := by
      constructor <;> intro fresh <;> simp [missing, fresh] at enough
    refine ⟨[], i.rest, rfl, i.advance_zero.symm, .done, fun other more spelled front => ?_⟩
    exact Nat.le_of_eq (spelled.length_eq_zero
      ⟨fun fresh => absurd fresh complete.1, fun fresh => absurd fresh complete.2⟩ front)
  | succ n induction =>
    rw [readUpTo] at found
    split at found
    next nothing =>
      simp only [Except.ok.injEq, Prod.mk.injEq] at found
      obtain ⟨rfl, rfl⟩ := found
      refine ⟨[], i.rest, rfl, i.advance_zero.symm, .done, fun other more spelled front => ?_⟩
      exact Nat.le_of_eq (spelled.length_eq_zero (readOne?_eq_none_iff.mp nothing) front)
    next => contradiction
    next next behind one_eq =>
      obtain ⟨delimiter, value, announced, value_eq, given⟩ := exists_of_readOne? one_eq
      obtain ⟨body, body_eq⟩ := exists_of_announces announced
      obtain ⟨l, number, tail, rfl, spelled, rfl, rfl, longest⟩ :=
        spelled_of_readValue value_eq body_eq
      have missing_eq := given.missing_eq
      obtain ⟨text, rear, rear_eq, rfl, later, later_longest⟩ := induction found (by omega)
      rw [Input.rest_advance, body_eq, List.drop_succ_cons, List.drop_left] at rear_eq later_longest
      subst rear_eq
      refine ⟨delimiter :: (number ++ text), rear, ?_, ?_, ?_, ?_⟩
      · rw [body_eq, List.cons_append, List.append_assoc]
      · rw [Input.advance_advance, List.length_cons, List.length_append, Nat.add_right_comm]
      · exact given.spelled_cons ⟨l, spelled, rfl⟩ later
      · intro other more otherSpelled front
        rw [body_eq] at front
        have more_le := Spelled.length_le_of_longest spelled longest given later_longest
          otherSpelled front
        rw [List.length_cons, List.length_append]
        omega

end Attributes

namespace Token

/-- How a token is written: a literal or the symbol of a command, with attributes behind, or
characters other than the quote in quotes. -/
inductive Spelled : Token → List Char → Prop
  | value {l : Literal} {attributes : Attributes} {text more : List Char}
      (literal : l.Spelled text) (behind : Attributes.Spelled {} attributes more) :
      Spelled (.value l attributes) (text ++ more)
  | command {symbol : Char} {op : Operation} {attributes : Attributes} {more : List Char}
      (symbol_eq : op.symbol? = some symbol) (behind : Attributes.Spelled {} attributes more) :
      Spelled (.command symbol op attributes) (symbol :: more)
  | text {chars : List Char} (unquoted : '"' ∉ chars) :
      Spelled (.text chars) ('"' :: (chars ++ ['"']))

/-- A text that cannot continue a token. Behind a closing quote, no text can. -/
def EndedBy : Token → List Char → Prop
  | .value _ attributes, rest | .command _ _ attributes, rest => attributes.EndedBy rest
  | .text _, _ => True

theorem endedBy_of_clear {rest : List Char} (clear : Clear rest) (t : Token) : t.EndedBy rest := by
  have ends (attributes : Attributes) : attributes.EndedBy rest :=
    ⟨clear.quiet, fun _ => clear.no_bits, fun _ => clear.no_repeats⟩
  cases t with
  | value _ attributes | command _ _ attributes => exact ends attributes
  | text => exact trivial

/-- The symbol of a command is no separator, no digit and no quote. -/
theorem symbol_ordinary {op : Operation} {symbol : Char} (symbol_eq : op.symbol? = some symbol) :
    isSeparator symbol = false ∧ symbol.isDigit = false ∧ symbol ≠ '"' := by
  cases op <;> simp only [Operation.symbol?, Option.some.injEq, reduceCtorEq] at symbol_eq <;>
    subst symbol_eq <;> decide

theorem isSeparator_of_isDigit {c : Char} (decimal : c.isDigit = true) : isSeparator c = false :=
  isSeparator_of_isAlphanum (by rw [Char.isAlphanum, decimal, Bool.or_true])

theorem quote_not_isDigit {c : Char} (decimal : c.isDigit = true) : c ≠ '"' := by
  rintro rfl
  contradiction

/-- A token begins with a character that is no separator. -/
theorem Spelled.exists_head {t : Token} {text : List Char} (spelled : t.Spelled text) :
    ∃ c more, text = c :: more ∧ isSeparator c = false := by
  cases spelled with
  | value literal _ =>
    obtain ⟨c, rest, rfl, decimal⟩ := literal.exists_decimal
    exact ⟨c, _, rfl, isSeparator_of_isDigit decimal⟩
  | command symbol_eq _ => exact ⟨_, _, rfl, (symbol_ordinary symbol_eq).1⟩
  | text _ => exact ⟨'"', _, rfl, rfl⟩

/-- A token ends with a character that is no separator. -/
theorem Spelled.isSeparator_last {t : Token} {text : List Char} (spelled : t.Spelled text) :
    ∀ c ∈ text.getLast?, isSeparator c = false := by
  intro c last
  cases spelled with
  | value literal behind =>
    rw [List.getLast?_append, Option.mem_def, Option.or_eq_some_iff] at last
    rcases last with last | ⟨-, last⟩
    · exact isSeparator_of_isAlphanum (behind.isAlphanum_last c last)
    · exact isSeparator_of_isAlphanum (literal.isAlphanum (List.mem_of_getLast? last))
  | @command symbol _ _ more symbol_eq behind =>
    rw [← List.singleton_append, List.getLast?_append, Option.mem_def, Option.or_eq_some_iff] at last
    rcases last with last | ⟨-, last⟩
    · exact isSeparator_of_isAlphanum (behind.isAlphanum_last c last)
    · obtain rfl := Option.some.inj last
      exact (symbol_ordinary symbol_eq).1
  | text =>
    rw [← List.cons_append, List.getLast?_append] at last
    obtain rfl := Option.some.inj last
    rfl

theorem readAttributes_append {position : Nat} {attributes : Attributes} {i : Input}
    {text rest : List Char} (spelled : Attributes.Spelled {} attributes text)
    (ends : attributes.EndedBy rest) (rest_eq : i.rest = text ++ rest) :
    readAttributes position i = .ok (attributes, i.advance text.length) := by
  rw [readAttributes, Attributes.read,
    Attributes.readUpTo_append spelled (by decide) ends rest_eq]

/-- Quoted text is read whatever comes behind it. -/
theorem readText_append {i : Input} {chars rest : List Char} (unquoted : '"' ∉ chars)
    (rest_eq : i.rest = '"' :: (chars ++ ['"']) ++ rest) :
    readText i = .ok (.text chars, i.advance ('"' :: (chars ++ ['"'])).length) := by
  have body_eq : (i.advance 1).rest = chars ++ '"' :: rest := by
    rw [Input.rest_advance, rest_eq]
    simp
  have chars_eq : (i.advance 1).rest.takeWhile (· != '"') = chars := by
    rw [body_eq, List.takeWhile_append_of_pos, List.takeWhile_cons_of_neg (by simp),
      List.append_nil]
    intro c member
    simpa using fun quote : c = '"' => unquoted (quote ▸ member)
  rw [readText]
  simp only [chars_eq]
  rw [if_pos (by rw [body_eq]; simp), Input.advance_advance]
  simp [Nat.add_comm]

/-- A token is read off the beginning of a text where what comes next cannot continue it. -/
theorem read_append {t : Token} {c : Char} {i : Input} {text rest : List Char}
    (spelled : t.Spelled text) (head_eq : text.head? = some c) (ends : t.EndedBy rest)
    (rest_eq : i.rest = text ++ rest) : read c i = .ok (t, i.advance text.length) := by
  cases spelled with
  | @value l attributes text more literal behind =>
    obtain ⟨d, later, rfl, decimal⟩ := literal.exists_decimal
    obtain rfl := Option.some.inj head_eq
    rw [List.append_assoc] at rest_eq
    have later_eq : (i.advance (d :: later).length).rest = more ++ rest := by
      rw [Input.rest_advance, rest_eq, List.drop_left]
    rw [read, if_pos decimal, readValue_eq, rest_eq,
      Literal.read?_append literal (behind.quiet_append ends.quiet)]
    simp only [readAttributes_append behind ends later_eq, Input.advance_advance,
      List.length_append]
  | @command symbol op attributes more symbol_eq behind =>
    obtain rfl := Option.some.inj head_eq
    obtain ⟨-, no_digit, no_quote⟩ := symbol_ordinary symbol_eq
    have later_eq : (i.advance 1).rest = more ++ rest := by
      rw [Input.rest_advance, rest_eq]
      rfl
    rw [read, no_digit, if_neg (by simp), if_neg no_quote, readCommand,
      Operation.ofSymbol?_of_symbol? symbol_eq]
    simp only [readAttributes_append behind ends later_eq, Input.advance_advance,
      List.length_cons, Nat.add_comm 1]
  | text unquoted =>
    obtain rfl := Option.some.inj head_eq
    rw [read, if_neg (by decide), if_pos rfl, readText_append unquoted rest_eq]

theorem spelled_of_readAttributes {position : Nat} {attributes : Attributes} {i rest : Input}
    (found : readAttributes position i = .ok (attributes, rest)) :
    ∃ text tail, i.rest = text ++ tail ∧ rest = i.advance text.length ∧
      Attributes.Spelled {} attributes text ∧
      ∀ other more, Attributes.Spelled {} other more → more <+: i.rest →
        more.length ≤ text.length := by
  rw [readAttributes] at found
  split at found
  next read_eq =>
    cases found
    exact Attributes.spelled_of_readUpTo read_eq (by decide)
  next => contradiction

theorem spelled_of_readValue {t : Token} {i rest : Input} (found : readValue i = .ok (t, rest)) :
    ∃ text tail, i.rest = text ++ tail ∧ rest = i.advance text.length ∧ t.Spelled text ∧
      ∀ l attributes more later, Literal.Spelled l more → Attributes.Spelled {} attributes later →
        more ++ later <+: i.rest → (more ++ later).length ≤ text.length := by
  rw [readValue_eq] at found
  split at found
  next => contradiction
  next l length literal_eq =>
    obtain ⟨text, tail, rest_eq, rfl, literal, longest⟩ := Literal.spelled_of_read? literal_eq
    split at found
    next => contradiction
    next attributes behind attributes_eq =>
      cases found
      obtain ⟨more, rear, more_eq, rfl, attributesSpelled, attributes_longest⟩ :=
        spelled_of_readAttributes attributes_eq
      rw [Input.rest_advance, rest_eq, List.drop_left] at more_eq attributes_longest
      subst more_eq
      refine ⟨text ++ more, rear, ?_, ?_, .value literal attributesSpelled, ?_⟩
      · rw [rest_eq, List.append_assoc]
      · rw [Input.advance_advance, List.length_append]
      · intro other otherAttributes otherText later otherSpelled laterSpelled front
        have quiet : Quiet (later ++ []) := laterSpelled.quiet_append clear_nil.quiet
        rw [List.append_nil] at quiet
        rw [rest_eq] at front longest
        have bounded := Literal.length_append_le_of_longest literal otherSpelled longest quiet front
          fun _ later_front => attributes_longest otherAttributes later laterSpelled later_front
        exact bounded.trans_eq List.length_append.symm

theorem spelled_of_readCommand {t : Token} {c : Char} {i rest : Input} {body : List Char}
    (start : i.rest = c :: body) (found : readCommand c i = .ok (t, rest)) :
    ∃ text tail, i.rest = text ++ tail ∧ rest = i.advance text.length ∧ t.Spelled text ∧
      ∀ attributes later, Attributes.Spelled {} attributes later → c :: later <+: i.rest →
        (c :: later).length ≤ text.length := by
  rw [readCommand] at found
  split at found
  next => contradiction
  next op op_eq =>
    split at found
    next => contradiction
    next attributes behind attributes_eq =>
      cases found
      obtain ⟨more, rear, more_eq, rfl, attributesSpelled, longest⟩ :=
        spelled_of_readAttributes attributes_eq
      rw [Input.rest_advance, start, List.drop_succ_cons, List.drop_zero] at more_eq longest
      subst more_eq
      refine ⟨c :: more, rear, start, ?_, ?_, ?_⟩
      · rw [Input.advance_advance, List.length_cons, Nat.add_comm]
      · exact .command (Operation.symbol?_of_ofSymbol? op_eq) attributesSpelled
      · intro other later laterSpelled front
        rw [start] at front
        exact Nat.succ_le_succ (longest other later laterSpelled (List.cons_prefix_cons.mp front).2)

theorem spelled_of_readText {t : Token} {i rest : Input} {body : List Char}
    (start : i.rest = '"' :: body) (found : readText i = .ok (t, rest)) :
    ∃ chars tail, i.rest = '"' :: (chars ++ ['"']) ++ tail ∧ '"' ∉ chars ∧ t = .text chars ∧
      rest = i.advance ('"' :: (chars ++ ['"'])).length := by
  have body_eq : (i.advance 1).rest = body := by
    rw [Input.rest_advance, start]
    rfl
  rw [readText] at found
  simp only [body_eq] at found
  split at found
  next closes =>
    cases found
    have split_eq := List.takeWhile_append_dropWhile (p := (· != '"')) (l := body)
    have unquoted : '"' ∉ body.takeWhile (· != '"') := by
      intro member
      simpa using List.mem_takeWhile_imp member
    cases rear : body.dropWhile (· != '"') with
    | nil =>
      rw [rear, List.append_nil] at split_eq
      rw [split_eq] at closes
      exact absurd closes (Nat.lt_irrefl _)
    | cons c tail =>
      have c_eq : c = '"' := by
        have stops := List.head?_dropWhile_not (· != '"') body
        rw [rear] at stops
        simpa using stops
      subst c_eq
      refine ⟨body.takeWhile (· != '"'), tail, ?_, unquoted, rfl, ?_⟩
      · rw [start, List.cons_append, List.append_assoc, List.singleton_append, ← rear, split_eq]
      · rw [Input.advance_advance]
        simp [Nat.add_comm]
  next => contradiction

/-- Quoted text ends at the first quote behind its beginning. -/
theorem length_le_of_quote {chars other tail : List Char} (unquoted : '"' ∉ other)
    (front : other <+: chars ++ '"' :: tail) : other.length ≤ chars.length := by
  induction other generalizing chars with
  | nil => exact Nat.zero_le _
  | cons c other induction =>
    cases chars with
    | nil =>
      obtain ⟨rfl, -⟩ := List.cons_prefix_cons.mp front
      exact absurd List.mem_cons_self unquoted
    | cons d chars =>
      exact Nat.succ_le_succ (induction (fun member => unquoted (List.mem_cons_of_mem _ member))
        (List.cons_prefix_cons.mp front).2)

/-- A token that is read was written there, and no token that begins there is longer. -/
theorem spelled_of_read {t : Token} {c : Char} {i rest : Input} {body : List Char}
    (start : i.rest = c :: body) (found : read c i = .ok (t, rest)) :
    ∃ text tail, i.rest = text ++ tail ∧ rest = i.advance text.length ∧ t.Spelled text ∧
      ∀ other more, Spelled other more → more <+: i.rest → more.length ≤ text.length := by
  have head_eq {d : Char} {more : List Char} (front : d :: more <+: i.rest) : d = c := by
    rw [start] at front
    exact (List.cons_prefix_cons.mp front).1
  rw [read] at found
  split at found
  next decimal =>
    obtain ⟨text, tail, rest_eq, behind_eq, spelled, longest⟩ := spelled_of_readValue found
    refine ⟨text, tail, rest_eq, behind_eq, spelled, fun other more otherSpelled front => ?_⟩
    cases otherSpelled with
    | value literal attributes => exact longest _ _ _ _ literal attributes front
    | command symbol_eq _ =>
      have no_digit := (symbol_ordinary symbol_eq).2.1
      rw [head_eq front, decimal] at no_digit
      contradiction
    | text => exact absurd (head_eq front).symm (quote_not_isDigit decimal)
  next not_decimal =>
    have no_literal {l : Literal} {text more : List Char} (literal : l.Spelled text)
        (front : text ++ more <+: i.rest) : False := by
      obtain ⟨d, later, rfl, decimal⟩ := literal.exists_decimal
      exact not_decimal (head_eq front ▸ decimal)
    split at found
    next quote =>
      subst quote
      obtain ⟨chars, tail, rest_eq, unquoted, rfl, behind_eq⟩ := spelled_of_readText start found
      refine ⟨_, tail, rest_eq, behind_eq, .text unquoted, fun other more otherSpelled front => ?_⟩
      cases otherSpelled with
      | value literal _ => exact (no_literal literal front).elim
      | command symbol_eq _ => exact absurd (head_eq front) (symbol_ordinary symbol_eq).2.2
      | @text otherChars otherUnquoted =>
        rw [rest_eq, List.cons_append, List.append_assoc, List.singleton_append] at front
        have chars_le := length_le_of_quote otherUnquoted
          ((List.prefix_append _ _).trans (List.cons_prefix_cons.mp front).2)
        simp only [List.length_cons, List.length_append]
        omega
    next no_quote =>
      obtain ⟨text, tail, rest_eq, behind_eq, spelled, longest⟩ :=
        spelled_of_readCommand start found
      refine ⟨text, tail, rest_eq, behind_eq, spelled, fun other more otherSpelled front => ?_⟩
      cases otherSpelled with
      | value literal _ => exact (no_literal literal front).elim
      | @command symbol op attributes later symbol_eq attributesSpelled =>
        obtain rfl : symbol = c := head_eq front
        exact longest attributes later attributesSpelled front
      | text => exact absurd (head_eq front).symm no_quote

end Token

end BusScript
