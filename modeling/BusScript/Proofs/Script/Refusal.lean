import BusScript.Proofs.Script.Acceptance

/-!
# Why a line is turned down

A line that does not compile has a token at which it fails: the token cannot be read, or its
attributes do not apply, or what precedes it leaves no room for it. Only the last depends on what
else was compiled, and only the first two name a position, which is that of the token.
-/

namespace BusScript

/-- What is wrong with the attributes of an operation. The repeat count is looked at first, and the
owner of a pin last. -/
inductive Attributes.Fault (settings : Settings) (role : Nat → PinRole) (symbol : Char)
    (op : Operation) (position : Nat) (a : Attributes) : Rejection → Prop
  | repeats {n : Nat} (given : n ∈ a.repeats) (large : 65535 < n) :
      Fault settings role symbol op position a (.tooManyRepeats n position)
  | missing (repeats_le : ∀ n ∈ a.repeats, n ≤ 65535) (uses : op.usesPin = true)
      (no_pin : a.bits = none) :
      Fault settings role symbol op position a (.missingPin symbol position)
  | invalid {pin : Nat} (repeats_le : ∀ n ∈ a.repeats, n ≤ 65535) (uses : op.usesPin = true)
      (given : pin ∈ a.bits) (beyond : settings.pins ≤ pin) :
      Fault settings role symbol op position a (.invalidPin pin position)
  | inUse {pin : Nat} (repeats_le : ∀ n ∈ a.repeats, n ≤ 65535) (claims : op.claimsPin = true)
      (given : pin ∈ a.bits) (named : pin < settings.pins) (owned : role pin ≠ .io) :
      Fault settings role symbol op position a (.pinInUse pin position)
  | width {n : Nat} (repeats_le : ∀ n ∈ a.repeats, n ≤ 65535) (uses_none : op.usesPin = false)
      (given : n ∈ a.bits) (outside : n < 1 ∨ 32 < n) :
      Fault settings role symbol op position a (.invalidWidth n position)

namespace Attributes.Fault

variable {settings : Settings} {role : Nat → PinRole} {symbol : Char} {op : Operation}
  {position : Nat} {a : Attributes} {reason : Rejection}

theorem position?_eq (fault : a.Fault settings role symbol op position reason) :
    reason.position? = some position := by
  cases fault <;> rfl

theorem shift (fault : a.Fault settings role symbol op position reason) (n : Nat) :
    a.Fault settings role symbol op (position + n) (reason.shift n) := by
  cases fault with
  | repeats given large => exact .repeats given large
  | missing repeats_le uses no_pin => exact .missing repeats_le uses no_pin
  | invalid repeats_le uses given beyond => exact .invalid repeats_le uses given beyond
  | inUse repeats_le claims given named owned => exact .inUse repeats_le claims given named owned
  | width repeats_le uses_none given outside => exact .width repeats_le uses_none given outside

end Attributes.Fault

namespace Token

/-- The reason for which a token that begins with the character cannot be read. -/
def unreadable (c : Char) (position : Nat) : Rejection :=
  if c = '"' then .unterminatedText position
  else if c.isDigit = true ∨ (Operation.ofSymbol? c).isSome = true then .badNumber position
  else .unknownSymbol c position

@[simp] theorem position?_unreadable (c : Char) (position : Nat) :
    (unreadable c position).position? = some position := by
  unfold unreadable
  split
  · rfl
  · split <;> rfl

theorem unreadable_add (c : Char) (position n : Nat) :
    unreadable c (position + n) = (unreadable c position).shift n := by
  unfold unreadable
  split
  · rfl
  · split <;> rfl

theorem reason_of_readAttributes {position : Nat} {i : Input} {failure : Failure}
    (failed : readAttributes position i = .error failure) :
    failure.reason = .badNumber position := by
  rw [readAttributes] at failed
  split at failed
  next => contradiction
  next =>
    cases failed
    rfl

/-- Why a token cannot be read is decided by the character it begins with. -/
theorem reason_of_read {c : Char} {i : Input} {failure : Failure}
    (failed : read c i = .error failure) : failure.reason = unreadable c i.tokenPosition := by
  rw [read] at failed
  split at failed
  next decimal =>
    rw [unreadable, if_neg (quote_not_isDigit decimal), if_pos (.inl decimal)]
    rw [readValue_eq] at failed
    split at failed
    next =>
      cases failed
      rfl
    next =>
      split at failed
      next attributes_eq =>
        cases failed
        exact reason_of_readAttributes attributes_eq
      next => contradiction
  next not_decimal =>
    split at failed
    next quote =>
      rw [unreadable, if_pos quote]
      rw [readText] at failed
      split at failed
      next => contradiction
      next =>
        cases failed
        rfl
    next no_quote =>
      rw [unreadable, if_neg no_quote]
      rw [readCommand] at failed
      split at failed
      next op_eq =>
        cases failed
        rw [if_neg]
        simp [not_decimal, op_eq]
      next op op_eq =>
        split at failed
        next attributes_eq =>
          cases failed
          rw [if_pos (.inr (by rw [op_eq, Option.isSome_some]))]
          exact reason_of_readAttributes attributes_eq
        next => contradiction

/-- What is read does not depend on what precedes it in the line. -/
theorem exists_read_of_rest_eq {c : Char} {i j : Input} {text : List Char} {found : Token × Input}
    (i_eq : i.rest = c :: text) (j_eq : j.rest = c :: text) (read_eq : read c i = .ok found) :
    ∃ rest, read c j = .ok (found.1, rest) := by
  obtain ⟨word, tail, split_eq, advance_eq, spelled, -⟩ := spelled_of_read i_eq read_eq
  obtain ⟨d, more, rfl, -⟩ := spelled.exists_head
  obtain ⟨rfl, -⟩ := List.cons.inj (i_eq.symm.trans split_eq)
  have other_eq : j.rest = c :: more ++ tail := by rw [j_eq, ← i_eq, split_eq]
  refine ⟨_, read_of_clearer ?_ split_eq other_eq (.refl tail)⟩
  rw [read_eq, ← advance_eq]

/-- A separator at the end of the line makes no difference to a token that is read. -/
theorem exists_read_append_separator_iff {c separator : Char} {i j : Input} {text : List Char}
    {t : Token} (separates : isSeparator separator = true) (i_eq : i.rest = c :: text)
    (j_eq : j.rest = c :: text ++ [separator]) :
    (∃ rest, read c j = .ok (t, rest)) ↔ ∃ rest, read c i = .ok (t, rest) := by
  constructor
  · rintro ⟨rest, found⟩
    obtain ⟨word, tail, split_eq, rfl, spelled, -⟩ := spelled_of_read j_eq found
    have whole_eq := j_eq.symm.trans split_eq
    obtain ⟨d, more, rfl, -⟩ := spelled.exists_head
    obtain ⟨rfl, -⟩ := List.cons.inj whole_eq
    obtain rfl | ⟨before, last, rfl⟩ := List.eq_nil_or_concat' tail
    · -- The token would end with the separator.
      rw [List.append_nil] at whole_eq
      have last_eq : (c :: more).getLast? = some separator := by
        rw [← whole_eq, List.getLast?_concat]
      rw [spelled.isSeparator_last separator last_eq] at separates
      contradiction
    · rw [← List.append_assoc] at whole_eq
      obtain ⟨text_eq, last_eq⟩ := List.append_inj' whole_eq rfl
      exact ⟨_, read_of_clearer found split_eq (i_eq.trans text_eq) (.of_append before [last])⟩
  · rintro ⟨rest, found⟩
    obtain ⟨word, tail, split_eq, rfl, spelled, -⟩ := spelled_of_read i_eq found
    obtain ⟨d, more, rfl, -⟩ := spelled.exists_head
    obtain ⟨rfl, -⟩ := List.cons.inj (i_eq.symm.trans split_eq)
    refine ⟨_, read_of_clearer found split_eq ?_ (.append_separator separates tail)⟩
    rw [j_eq, ← i_eq, split_eq, List.append_assoc]

theorem fault_of_applyRepeats {settings : Settings} {role : Nat → PinRole} {symbol : Char}
    {position : Nat} {a : Attributes} {plain : Instruction} {reason : Rejection}
    (failed : applyRepeats position a plain = .error reason) :
    a.Fault settings role symbol plain.op position reason := by
  rw [applyRepeats] at failed
  split at failed
  next => contradiction
  next n given =>
    split at failed
    next large =>
      cases failed
      exact .repeats given large
    next => contradiction

theorem fault_of_applyBits {settings : Settings} {role : Nat → PinRole} {symbol : Char}
    {position : Nat} {a : Attributes} {counted : Instruction} {reason : Rejection}
    (repeats_le : ∀ n ∈ a.repeats, n ≤ 65535)
    (failed : applyBits settings role symbol position a counted = .error reason) :
    a.Fault settings role symbol counted.op position reason := by
  rw [applyBits] at failed
  split at failed
  next uses =>
    split at failed
    next no_pin =>
      cases failed
      exact .missing repeats_le uses no_pin
    next pin given =>
      split at failed
      next beyond =>
        cases failed
        exact .invalid repeats_le uses given beyond
      next named =>
        split at failed
        next taken =>
          cases failed
          exact .inUse repeats_le taken.1 given (Nat.lt_of_not_le named) taken.2
        next => contradiction
  next uses_none =>
    split at failed
    next => contradiction
    next n given =>
      split at failed
      next outside =>
        cases failed
        exact .width repeats_le (Bool.not_eq_true _ ▸ uses_none) given outside
      next => contradiction

/-- Attributes that do not apply have a fault. -/
theorem fault_of_applyAttributes {settings : Settings} {role : Nat → PinRole} {symbol : Char}
    {position : Nat} {a : Attributes} {plain : Instruction} {reason : Rejection}
    (failed : applyAttributes settings role symbol position a plain = .error reason) :
    a.Fault settings role symbol plain.op position reason := by
  rw [applyAttributes] at failed
  cases repeated : applyRepeats position a plain with
  | error other =>
    rw [repeated] at failed
    obtain rfl := Except.error.inj failed
    exact fault_of_applyRepeats repeated
  | ok counted =>
    rw [repeated, Except.bind] at failed
    obtain ⟨repeats_le, rfl⟩ := applyRepeats_eq_ok_iff.mp repeated
    have fault : a.Fault settings role symbol (a.withRepeats plain).op position reason :=
      fault_of_applyBits repeats_le failed
    exact fault

theorem applyAttributes_of_fault {settings : Settings} {role : Nat → PinRole} {symbol : Char}
    {position : Nat} {a : Attributes} {plain : Instruction} {reason : Rejection}
    (fault : a.Fault settings role symbol plain.op position reason) :
    applyAttributes settings role symbol position a plain = .error reason := by
  have counted (repeats_le : ∀ n ∈ a.repeats, n ≤ 65535) : ∃ repeated : Instruction,
      repeated.op = plain.op ∧ applyAttributes settings role symbol position a plain =
        applyBits settings role symbol position a repeated := by
    refine ⟨a.withRepeats plain, rfl, ?_⟩
    rw [applyAttributes, applyRepeats_eq_ok_iff.mpr ⟨repeats_le, rfl⟩, Except.bind]
  cases fault with
  | repeats given large =>
    rw [Option.mem_def] at given
    replace large : Program.maxRepeats < _ := large
    rw [applyAttributes, applyRepeats, given]
    simp only [if_pos large]
    rfl
  | missing repeats_le uses no_pin =>
    obtain ⟨repeated, op_eq, applied⟩ := counted repeats_le
    rw [applied, applyBits, op_eq, if_pos uses, no_pin]
  | invalid repeats_le uses given beyond =>
    obtain ⟨repeated, op_eq, applied⟩ := counted repeats_le
    rw [Option.mem_def] at given
    rw [applied, applyBits, op_eq, if_pos uses, given]
    exact if_pos beyond
  | inUse repeats_le claims given named owned =>
    obtain ⟨repeated, op_eq, applied⟩ := counted repeats_le
    rw [Option.mem_def] at given
    rw [applied, applyBits, op_eq, if_pos (Operation.usesPin_of_claimsPin claims), given]
    simp only [if_neg named.not_ge]
    exact if_pos ⟨claims, owned⟩
  | width repeats_le uses_none given outside =>
    obtain ⟨repeated, op_eq, applied⟩ := counted repeats_le
    rw [Option.mem_def] at given
    rw [applied, applyBits, op_eq, uses_none, if_neg Bool.false_ne_true, given]
    exact if_pos outside

/-- What is wrong with a token that can be read. -/
def Fault (settings : Settings) (role : Nat → PinRole) (c : Char) (position : Nat)
    (reason : Rejection) : Token → Prop
  | .value _ a => a.Fault settings role c .write position reason
  | .command symbol op a => a.Fault settings role symbol op position reason
  | .text _ => False

/-- Nothing is wrong with a token that is in range and whose pin is free. -/
theorem Fault.not_valid {settings : Settings} {role : Nat → PinRole} {c : Char} {position : Nat}
    {reason : Rejection} {t : Token} (fault : t.Fault settings role c position reason) :
    ¬ (t.Fits settings ∧ t.PinFree role) := by
  have applies {symbol : Char} {op : Operation} {a : Attributes}
      (fault : a.Fault settings role symbol op position reason) :
      ¬ (a.Fit settings op ∧ a.PinFree role op) := by
    rintro ⟨fit, free⟩
    have failed : applyAttributes settings role symbol position a { op := op } = .error reason :=
      applyAttributes_of_fault fault
    rw [applyAttributes_eq_ok_iff.mpr ⟨fit, free, rfl⟩] at failed
    contradiction
  rintro ⟨fits, free⟩
  cases t with
  | value => exact applies fault ⟨fits, fun claims => absurd claims Bool.false_ne_true⟩
  | command => exact applies fault ⟨fits, free⟩
  | text => exact fault

end Token

namespace Draft

variable {settings : Settings} {role : Nat → PinRole} {c : Char} {start rest : Input} {d : Draft}
  {stopped : Compilation} {reason : Rejection}

theorem reason_of_pushText {chars : List Char} {i : Input}
    (failed : d.pushText settings chars i = .error stopped)
    (result_eq : stopped.result = .error reason) : reason = .exceedsCapacity settings.capacity := by
  obtain ⟨middle, j, -, rfl⟩ := exists_fail_of_pushText failed
  exact (Except.error.inj result_eq).symm

theorem reason_of_pushCommand {symbol : Char} {a : Attributes} {plain : Instruction}
    (failed : d.pushCommand settings role symbol start rest a plain = .error stopped)
    (result_eq : stopped.result = .error reason) :
    a.Fault settings role symbol plain.op start.tokenPosition reason ∨
      a.Fit settings plain.op ∧ a.PinFree role plain.op ∧
        reason = .exceedsCapacity settings.capacity := by
  rw [pushCommand] at failed
  split at failed
  next applied =>
    cases failed
    obtain rfl := Except.error.inj result_eq
    exact .inl (Token.fault_of_applyAttributes applied)
  next applied =>
    obtain ⟨fit, free, -⟩ := Token.applyAttributes_eq_ok_iff.mp applied
    split at failed
    next => contradiction
    next =>
      cases failed
      exact .inr ⟨fit, free, (Except.error.inj result_eq).symm⟩

/-- A token is not appended because something is wrong with it, or because there is no room. -/
theorem reason_of_append {t : Token}
    (failed : d.append settings role c start rest t = .error stopped)
    (result_eq : stopped.result = .error reason) :
    t.Fault settings role c start.tokenPosition reason ∨
      (t.Fits settings ∧ t.PinFree role) ∧ ¬ d.Room settings (t.denote settings) ∧
        reason = .exceedsCapacity settings.capacity := by
  have no_room (fits : t.Fits settings) (free : t.PinFree role) :
      ¬ d.Room settings (t.denote settings) := by
    intro room
    obtain ⟨later, appended⟩ := exists_append c start rest fits free room
    rw [appended] at failed
    contradiction
  cases t with
  | value l a =>
    rcases reason_of_pushCommand failed result_eq with fault | ⟨fit, -, reason_eq⟩
    · exact .inl fault
    · exact .inr ⟨⟨fit, trivial⟩, no_room fit trivial, reason_eq⟩
  | command symbol op a =>
    rcases reason_of_pushCommand failed result_eq with fault | ⟨fit, free, reason_eq⟩
    · exact .inl fault
    · exact .inr ⟨⟨fit, free⟩, no_room fit free, reason_eq⟩
  | text chars =>
    exact .inr ⟨⟨trivial, trivial⟩, no_room trivial trivial, reason_of_pushText failed result_eq⟩

theorem exists_error_of_fault {t : Token}
    (fault : t.Fault settings role c start.tokenPosition reason) :
    ∃ stopped, d.append settings role c start rest t = .error stopped ∧
      stopped.result = .error reason := by
  have pushed {symbol : Char} {a : Attributes} {plain : Instruction}
      (fault : a.Fault settings role symbol plain.op start.tokenPosition reason) :
      ∃ stopped, d.pushCommand settings role symbol start rest a plain = .error stopped ∧
        stopped.result = .error reason := by
    rw [pushCommand, Token.applyAttributes_of_fault fault]
    exact ⟨_, rfl, rfl⟩
  cases t with
  | value l a => exact pushed fault
  | command symbol op a => exact pushed fault
  | text chars => exact absurd fault id

theorem exists_error_of_no_room {t : Token} (c : Char) (start rest : Input)
    (valid : t.Fits settings ∧ t.PinFree role) (no_room : ¬ d.Room settings (t.denote settings)) :
    ∃ stopped, d.append settings role c start rest t = .error stopped ∧
      stopped.result = .error (.exceedsCapacity settings.capacity) := by
  cases append_eq : d.append settings role c start rest t with
  | ok later => exact absurd (extends_of_append append_eq).2.1 no_room
  | error stopped =>
    obtain ⟨reason, result_eq⟩ := exists_reason_of_append append_eq
    rcases reason_of_append append_eq result_eq with fault | ⟨-, -, rfl⟩
    · exact absurd valid fault.not_valid
    · exact ⟨stopped, rfl, result_eq⟩

end Draft

/-- A token that begins with the character is the reason why a line is turned down, whatever was
charged for what precedes it. -/
inductive FailsAt (settings : Settings) (role : Nat → PinRole) (reason : Rejection) (c : Char)
    (i : Input) : Prop
  | unread {failure : Failure} (read_eq : Token.read c i = .error failure)
      (reason_eq : failure.reason = reason)
  | unfit {t : Token} {rest : Input} (read_eq : Token.read c i = .ok (t, rest))
      (fault : t.Fault settings role c i.tokenPosition reason)

namespace FailsAt

variable {settings : Settings} {role : Nat → PinRole} {reason : Rejection} {c : Char}
  {text : List Char} {i : Input}

theorem position?_eq (fails : FailsAt settings role reason c i) :
    reason.position? = some i.tokenPosition := by
  cases fails with
  | unread read_eq reason_eq =>
    rw [← reason_eq, Token.reason_of_read read_eq, Token.position?_unreadable]
  | @unfit t rest _ fault =>
    cases t with
    | value => exact fault.position?_eq
    | command => exact fault.position?_eq
    | text => exact absurd fault id

/-- What fails goes on failing in another place, as long as the same tokens are read there. -/
theorem shift_of_reads_iff {j : Input} {n : Nat} (fails : FailsAt settings role reason c i)
    (position_eq : j.position = i.position + n)
    (reads_iff : ∀ t, (∃ rest, Token.read c j = .ok (t, rest)) ↔
      ∃ rest, Token.read c i = .ok (t, rest)) : FailsAt settings role (reason.shift n) c j := by
  have token_position : j.tokenPosition = i.tokenPosition + n := by
    rw [Input.tokenPosition, position_eq, Nat.add_right_comm]
    rfl
  cases fails with
  | unread read_eq reason_eq =>
    cases other_eq : Token.read c j with
    | ok found =>
      obtain ⟨rest, moved_eq⟩ := (reads_iff found.1).mp ⟨found.2, other_eq⟩
      rw [moved_eq] at read_eq
      contradiction
    | error failure =>
      refine .unread other_eq ?_
      rw [Token.reason_of_read other_eq, ← reason_eq, Token.reason_of_read read_eq, token_position,
        Token.unreadable_add]
  | @unfit t rest read_eq fault =>
    obtain ⟨rest, moved_eq⟩ := (reads_iff t).mpr ⟨rest, read_eq⟩
    refine .unfit moved_eq ?_
    rw [token_position]
    cases t with
    | value => exact fault.shift n
    | command => exact fault.shift n
    | text => exact absurd fault id

theorem shift {j : Input} {n : Nat} (fails : FailsAt settings role reason c i)
    (i_eq : i.rest = c :: text) (j_eq : j.rest = c :: text)
    (position_eq : j.position = i.position + n) :
    FailsAt settings role (reason.shift n) c j :=
  fails.shift_of_reads_iff position_eq fun _ =>
    ⟨fun ⟨_, found⟩ => Token.exists_read_of_rest_eq j_eq i_eq found,
      fun ⟨_, found⟩ => Token.exists_read_of_rest_eq i_eq j_eq found⟩

/-- What fails goes on failing with a separator behind it. -/
theorem append_separator {separator : Char} {j : Input} (fails : FailsAt settings role reason c i)
    (separates : isSeparator separator = true) (i_eq : i.rest = c :: text)
    (j_eq : j.rest = c :: text ++ [separator]) (position_eq : j.position = i.position) :
    FailsAt settings role reason c j := by
  have moved : FailsAt settings role (reason.shift 0) c j :=
    fails.shift_of_reads_iff position_eq fun _ =>
      Token.exists_read_append_separator_iff separates i_eq j_eq
  have same : reason.shift 0 = reason := by cases reason <;> rfl
  rwa [same] at moved

/-- A line is turned down for an owned pin only where the pin is owned. -/
theorem role_ne_io {pin position : Nat}
    (fails : FailsAt settings role (.pinInUse pin position) c i) : role pin ≠ .io := by
  cases fails with
  | unread read_eq reason_eq =>
    have reason_eq := (Token.reason_of_read read_eq).symm.trans reason_eq
    unfold Token.unreadable at reason_eq
    split at reason_eq
    · cases reason_eq
    · split at reason_eq <;> cases reason_eq
  | @unfit t rest _ fault =>
    have owned {symbol : Char} {op : Operation} {a : Attributes}
        (fault : a.Fault settings role symbol op i.tokenPosition (.pinInUse pin position)) :
        role pin ≠ .io := by
      cases fault with
      | inUse _ _ _ _ owned => exact owned
    cases t with
    | value => exact owned fault
    | command => exact owned fault
    | text => exact absurd fault id

end FailsAt

section Compile

open IsScript

variable {settings : Settings} {role : Nat → PinRole} {d : Draft} {i : Input} {reason : Rejection}

/-- Why what is unread of a line is turned down: there is no room for some tokens at its beginning,
or there is room for those in front of a token at which it fails. -/
inductive TurnedDown (settings : Settings) (role : Nat → PinRole) (d : Draft) (i : Input) :
    Rejection → Prop
  | full {tokens : List Token} {front tail : List Char} (rest_eq : i.rest = front ++ tail)
      (beginning : IsBeginning Read tail tokens front)
      (valid : ∀ t ∈ tokens, t.Fits settings ∧ t.PinFree role)
      (no_room : ¬ d.Room settings (tokens.flatMap (Token.denote settings))) :
      TurnedDown settings role d i (.exceedsCapacity settings.capacity)
  | failed {tokens : List Token} {front text : List Char} {c : Char} {reason : Rejection}
      (rest_eq : i.rest = front ++ c :: text)
      (beginning : IsBeginning Read (c :: text) tokens front)
      (valid : ∀ t ∈ tokens, t.Fits settings ∧ t.PinFree role)
      (room : d.Room settings (tokens.flatMap (Token.denote settings)))
      (ordinary : isSeparator c = false)
      (fails : FailsAt settings role reason c (i.advance front.length)) :
      TurnedDown settings role d i reason

theorem IsBeginning.singleton {t : Token} {word tail : List Char} (spelled : t.Spelled word)
    (reads : Read word tail) : IsBeginning Read tail [t] word := by
  have beginning : IsBeginning Read tail [t] (word ++ []) := .token spelled reads .nil
  rwa [List.append_nil] at beginning

namespace TurnedDown

/-- The first token there is fails. -/
theorem of_failsAt {c : Char} {text : List Char} (rest_eq : i.rest = c :: text)
    (ordinary : isSeparator c = false) (fails : FailsAt settings role reason c i) :
    TurnedDown settings role d i reason := by
  have nothing : IsBeginning Read (c :: text) [] [] := .nil
  refine .failed rest_eq nothing (List.forall_mem_nil _) (.inl rfl) ordinary ?_
  rwa [List.length_nil, Input.advance_zero]

/-- There is no room for the first token. -/
theorem of_no_room {t : Token} {word tail : List Char} (rest_eq : i.rest = word ++ tail)
    (spelled : t.Spelled word) (reads : Read word tail) (fits : t.Fits settings ∧ t.PinFree role)
    (no_room : ¬ d.Room settings (t.denote settings)) :
    TurnedDown settings role d i (.exceedsCapacity settings.capacity) := by
  refine .full rest_eq (.singleton spelled reads) (List.forall_mem_singleton.mpr fits) ?_
  rwa [List.flatMap_singleton]

theorem of_separator {c : Char} {text : List Char} (rest_eq : i.rest = c :: text)
    (separates : isSeparator c = true)
    (down : TurnedDown settings role d (i.advance 1) reason) :
    TurnedDown settings role d i reason := by
  have text_eq : (i.advance 1).rest = text := by
    rw [Input.rest_advance, rest_eq, List.drop_one, List.tail_cons]
  cases down with
  | full front_eq beginning valid no_room =>
    rw [text_eq] at front_eq
    refine .full ?_ (.separator separates beginning) valid no_room
    rw [rest_eq, front_eq, List.cons_append]
  | failed front_eq beginning valid room ordinary fails =>
    rw [text_eq] at front_eq
    rw [Input.advance_advance, Nat.add_comm, ← List.length_cons] at fails
    refine .failed ?_ (.separator separates beginning) valid room ordinary fails
    rw [rest_eq, front_eq, List.cons_append]

theorem of_token {t : Token} {word text : List Char} {later : Draft}
    (rest_eq : i.rest = word ++ text) (spelled : t.Spelled word) (reads : Read word text)
    (fits : t.Fits settings ∧ t.PinFree role) (room : d.Room settings (t.denote settings))
    (extended : Draft.Extends d later (t.denote settings))
    (down : TurnedDown settings role later (i.advance word.length) reason) :
    TurnedDown settings role d i reason := by
  have text_eq : (i.advance word.length).rest = text := by
    rw [Input.rest_advance, rest_eq, List.drop_left]
  cases down with
  | full front_eq beginning valid no_room =>
    rw [text_eq] at front_eq
    refine .full ?_ (.token spelled (front_eq ▸ reads) beginning)
      (List.forall_mem_cons.mpr ⟨fits, valid⟩) ?_
    · rw [rest_eq, front_eq, List.append_assoc]
    · rw [List.flatMap_cons, Draft.room_append extended]
      exact fun both => no_room both.2
  | failed front_eq beginning valid room_later ordinary fails =>
    rw [text_eq] at front_eq
    rw [Input.advance_advance, ← List.length_append] at fails
    refine .failed ?_ (.token spelled (front_eq ▸ reads) beginning)
      (List.forall_mem_cons.mpr ⟨fits, valid⟩) ?_ ordinary fails
    · rw [rest_eq, front_eq, List.append_assoc]
    · rw [List.flatMap_cons, Draft.room_append extended]
      exact ⟨room, room_later⟩

end TurnedDown

/-- A line that does not compile is turned down for a reason. -/
theorem turnedDown_of_compileFrom
    (failed : (compileFrom settings role d i).result = .error reason) :
    TurnedDown settings role d i reason := by
  induction length_eq : i.rest.length using Nat.strong_induction_on generalizing d i with
  | _ n induction =>
    cases rest_eq : i.rest with
    | nil =>
      rw [compileFrom_of_nil rest_eq] at failed
      contradiction
    | cons c text =>
      have shorter : (i.advance 1).rest.length < n := by
        rw [Input.rest_advance, ← length_eq, rest_eq, List.drop_one, List.tail_cons,
          List.length_cons]
        exact Nat.lt_succ_self _
      rw [compileFrom_of_cons rest_eq] at failed
      split at failed
      next separates => exact .of_separator rest_eq separates (induction _ shorter failed rfl)
      next ordinary =>
        rw [Bool.not_eq_true] at ordinary
        split at failed
        next failure read_eq =>
          exact .of_failsAt rest_eq ordinary (.unread read_eq (Except.error.inj failed))
        next t rest read_eq =>
          have rest_shorter : rest.rest.length < n :=
            length_eq ▸ Token.rest_length_lt_of_read rest_eq read_eq
          obtain ⟨word, tail, split_eq, rfl, spelled, -⟩ := Token.spelled_of_read rest_eq read_eq
          obtain ⟨e, more, rfl, -⟩ := spelled.exists_head
          obtain ⟨rfl, -⟩ := List.cons.inj (rest_eq.symm.trans split_eq)
          have reads := Read.of_read spelled split_eq read_eq
          split at failed
          next stopped append_eq =>
            rcases Draft.reason_of_append append_eq failed with
              fault | ⟨fits, no_room, rfl⟩
            · exact .of_failsAt rest_eq ordinary (.unfit read_eq fault)
            · exact .of_no_room split_eq spelled reads fits no_room
          next later append_eq =>
            obtain ⟨fits, room, extended⟩ := Draft.extends_of_append append_eq
            exact .of_token split_eq spelled reads fits room extended
              (induction _ rest_shorter failed rfl)

/-- Tokens for which there is no room are turned down for that. -/
theorem compileFrom_of_no_room {tokens : List Token} {front tail : List Char}
    (beginning : IsBeginning Read tail tokens front) (rest_eq : i.rest = front ++ tail)
    (valid : ∀ t ∈ tokens, t.Fits settings ∧ t.PinFree role)
    (no_room : ¬ d.Room settings (tokens.flatMap (Token.denote settings))) :
    (compileFrom settings role d i).result = .error (.exceedsCapacity settings.capacity) := by
  induction beginning generalizing d i with
  | nil => exact absurd (.inl rfl) no_room
  | @separator tokens c front separates _ induction =>
    have text_eq : (i.advance 1).rest = front ++ tail := by
      rw [Input.rest_advance, rest_eq]
      rfl
    rw [compileFrom_of_separator rest_eq separates]
    exact induction text_eq valid no_room
  | @token t tokens word front spelled reads _ induction =>
    obtain ⟨c, more, rfl, ordinary⟩ := spelled.exists_head
    rw [List.append_assoc] at rest_eq
    have text_eq : (i.advance (c :: more).length).rest = front ++ tail := by
      rw [Input.rest_advance, rest_eq, List.drop_left]
    have read_eq := reads.read_eq spelled rfl rest_eq
    obtain ⟨fits, valid⟩ := List.forall_mem_cons.mp valid
    rw [List.flatMap_cons] at no_room
    by_cases room : d.Room settings (t.denote settings)
    · obtain ⟨later, appended⟩ :=
        Draft.exists_append c i (i.advance (c :: more).length) fits.1 fits.2 room
      obtain ⟨-, -, extended⟩ := Draft.extends_of_append appended
      rw [Draft.room_append extended] at no_room
      rw [compileFrom_of_token rest_eq ordinary read_eq appended]
      exact induction text_eq valid fun room_later => no_room ⟨room, room_later⟩
    · obtain ⟨stopped, append_eq, result_eq⟩ := Draft.exists_error_of_no_room c i
        (i.advance (c :: more).length) fits room
      rw [compileFrom_of_cons rest_eq, ordinary, if_neg Bool.false_ne_true, read_eq]
      simp only [append_eq]
      exact result_eq

/-- What is unread of a line is turned down for exactly one reason. -/
theorem compileFrom_eq_error_iff : (compileFrom settings role d i).result = .error reason ↔
    TurnedDown settings role d i reason := by
  refine ⟨turnedDown_of_compileFrom, fun down => ?_⟩
  cases down with
  | full rest_eq beginning valid no_room =>
    exact compileFrom_of_no_room beginning rest_eq valid no_room
  | @failed tokens front text c _ rest_eq beginning valid room ordinary fails =>
    obtain ⟨later, -, compile_eq⟩ := compileFrom_of_isBeginning beginning rest_eq valid room
    have behind_eq : (i.advance front.length).rest = c :: text := by
      rw [Input.rest_advance, rest_eq, List.drop_left]
    rw [compile_eq, compileFrom_of_cons behind_eq, ordinary, if_neg Bool.false_ne_true]
    cases fails with
    | unread read_eq reason_eq =>
      rw [read_eq, ← reason_eq]
      rfl
    | @unfit t rest read_eq fault =>
      obtain ⟨stopped, append_eq, result_eq⟩ : ∃ stopped,
          later.append settings role c (i.advance front.length) rest t = .error stopped ∧
            stopped.result = .error reason := Draft.exists_error_of_fault fault
      rw [read_eq]
      simp only [append_eq]
      exact result_eq

end Compile

/-- A line is turned down for a pin only where the pin is in use. -/
theorem Cursor.role_ne_io_of_compile {settings : Settings} {role : Nat → PinRole} {line : Cursor}
    {pin position : Nat}
    (failed : (line.compile settings role).1.result = .error (.pinInUse pin position)) :
    role pin ≠ .io := by
  cases turnedDown_of_compileFrom failed with
  | failed _ _ _ _ _ fails => exact fails.role_ne_io

end BusScript
