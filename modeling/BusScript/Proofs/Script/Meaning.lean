import BusScript.Proofs.Script.Grammar
import BusScript.Script.Compile

/-!
# The meaning of a script

Every token stands for instructions of its own, whatever surrounds it. A draft takes exactly the
tokens that are in range, whose pin is free and for which there is room, and then ends in what they
stand for.
-/

namespace BusScript

/-- Whether the number behind the dot is in range: an operation on a pin names one that exists, and
the width of any other lies within a word. -/
def Attributes.BitsFit (settings : Settings) (op : Operation) (a : Attributes) : Prop :=
  if op.usesPin then ∃ pin, a.bits = some pin ∧ pin < settings.pins
  else ∀ n ∈ a.bits, 1 ≤ n ∧ n ≤ 32

/-- Whether the attributes of an operation are in range. -/
structure Attributes.Fit (settings : Settings) (op : Operation) (a : Attributes) : Prop where
  repeats_le : ∀ n ∈ a.repeats, n ≤ 65535
  bits_fit : a.BitsFit settings op

/-- Whether the pin that an operation claims is free. -/
def Attributes.PinFree (role : Nat → PinRole) (op : Operation) (a : Attributes) : Prop :=
  op.claimsPin = true → ∀ pin ∈ a.bits, role pin = .io

/-- An instruction with the repeat count that was written, if one was. -/
def Attributes.withRepeats (a : Attributes) (i : Instruction) : Instruction :=
  { i with
    repeats := (a.repeats.map (max · 1)).getD i.repeats
    hasRepeats := a.repeats.isSome || i.hasRepeats }

/-- An instruction with the pin or the width that was written, if one was. -/
def Attributes.withBits (a : Attributes) (i : Instruction) : Instruction :=
  { i with
    bits := if i.op.usesPin then i.bits else a.bits.getD i.bits
    pin := if i.op.usesPin then a.bits.getD i.pin else i.pin
    hasBits := a.bits.isSome || i.hasBits }

namespace Token

/-- Whether the attributes of a token are in range. -/
def Fits (settings : Settings) : Token → Prop
  | .value _ attributes => attributes.Fit settings .write
  | .command _ op attributes => attributes.Fit settings op
  | .text _ => True

/-- Whether the pin that a token claims is free. -/
def PinFree (role : Nat → PinRole) : Token → Prop
  | .command _ op attributes => attributes.PinFree role op
  | .value _ _ | .text _ => True

/-- The instructions that a token stands for: one for a literal or a command, and for quoted text a
write of every byte of its encoding. The number after the dot is a pin for an operation that uses
one, and a width for any other. -/
def denote (settings : Settings) : Token → Program
  | .value l attributes =>
    [{ op := .write
       radix := l.radix
       sent := l.value
       bits := attributes.bits.getD settings.bits
       repeats := max (attributes.repeats.getD 1) 1
       hasBits := attributes.bits.isSome
       hasRepeats := attributes.repeats.isSome }]
  | .command _ op attributes =>
    [{ op := op
       bits := if op.usesPin then settings.bits else attributes.bits.getD settings.bits
       pin := if op.usesPin then attributes.bits.getD 0 else 0
       repeats := max (attributes.repeats.getD 1) 1
       hasBits := attributes.bits.isSome
       hasRepeats := attributes.repeats.isSome }]
  | .text chars =>
    (String.ofList chars).toUTF8.data.toList.map fun byte =>
      { op := .write, radix := .ascii, sent := byte.toUInt32, bits := settings.bits }

theorem denote_text (settings : Settings) (chars : List Char) :
    denote settings (.text chars) = chars.flatMap (charWrites settings) := by
  have bytes_eq : (String.ofList chars).toUTF8.data.toList =
      chars.flatMap String.utf8EncodeChar := by
    simp [List.utf8Encode]
  rw [denote, bytes_eq, List.map_flatMap]
  rfl

theorem applyRepeats_eq_ok_iff {position : Nat} {a : Attributes} {plain i : Instruction} :
    applyRepeats position a plain = .ok i ↔
      (∀ n ∈ a.repeats, n ≤ 65535) ∧ i = a.withRepeats plain := by
  cases repeats : a.repeats with
  | none => simpa [applyRepeats, Attributes.withRepeats, repeats] using eq_comm
  | some n =>
    by_cases large : 65535 < n
    · simp [applyRepeats, repeats, Program.maxRepeats, large]
    · simpa [applyRepeats, Attributes.withRepeats, repeats, Program.maxRepeats, large,
        Nat.le_of_not_lt large] using eq_comm

theorem applyBits_eq_ok_iff {settings : Settings} {role : Nat → PinRole} {symbol : Char}
    {position : Nat} {a : Attributes} {plain i : Instruction} :
    applyBits settings role symbol position a plain = .ok i ↔
      a.BitsFit settings plain.op ∧ a.PinFree role plain.op ∧ i = a.withBits plain := by
  cases uses : plain.op.usesPin with
  | true =>
    cases bits : a.bits with
    | none => simp [applyBits, Attributes.BitsFit, uses, bits]
    | some pin =>
      by_cases named : pin < settings.pins
      · by_cases taken : plain.op.claimsPin = true ∧ role pin ≠ .io
        · simp [applyBits, Attributes.PinFree, uses, bits, named.not_ge, taken]
        · have free : a.PinFree role plain.op := by
            intro claims pin' pin_eq
            by_contra occupied
            rw [bits, Option.mem_some] at pin_eq
            exact taken ⟨claims, pin_eq ▸ occupied⟩
          simp only [applyBits, uses, bits, if_neg named.not_ge, if_neg taken, if_true]
          simpa [Attributes.BitsFit, Attributes.withBits, uses, bits, named, free] using eq_comm
      · simp [applyBits, Attributes.BitsFit, uses, bits, named, Nat.le_of_not_lt named]
  | false =>
    have claims : plain.op.claimsPin = false := by
      rw [← Bool.not_eq_true]
      intro claims
      rw [Operation.usesPin_of_claimsPin claims] at uses
      contradiction
    cases bits : a.bits with
    | none =>
      simpa [applyBits, Attributes.BitsFit, Attributes.PinFree, Attributes.withBits, uses, bits,
        claims] using eq_comm
    | some n =>
      by_cases outside : n = 0 ∨ 32 < n
      · have unfit : ¬ (1 ≤ n ∧ n ≤ 32) := by omega
        simp [applyBits, Attributes.BitsFit, uses, bits, outside, unfit]
      · have fit : 1 ≤ n ∧ n ≤ 32 := by omega
        simpa [applyBits, Attributes.BitsFit, Attributes.PinFree, Attributes.withBits, uses, bits,
          claims, outside, fit] using eq_comm

/-- Attributes apply exactly if they are in range and the pin they claim is free. -/
theorem applyAttributes_eq_ok_iff {settings : Settings} {role : Nat → PinRole} {symbol : Char}
    {position : Nat} {a : Attributes} {plain i : Instruction} :
    applyAttributes settings role symbol position a plain = .ok i ↔
      a.Fit settings plain.op ∧ a.PinFree role plain.op ∧ i = a.withBits (a.withRepeats plain) := by
  rw [applyAttributes]
  cases applied : applyRepeats position a plain with
  | error reason =>
    constructor
    · intro impossible
      contradiction
    · rintro ⟨fit, -, -⟩
      rw [applyRepeats_eq_ok_iff.mpr ⟨fit.repeats_le, rfl⟩] at applied
      contradiction
  | ok repeated =>
    obtain ⟨repeats_le, rfl⟩ := applyRepeats_eq_ok_iff.mp applied
    rw [Except.bind, applyBits_eq_ok_iff]
    constructor
    · rintro ⟨fit, free, i_eq⟩
      exact ⟨⟨repeats_le, fit⟩, free, i_eq⟩
    · rintro ⟨fit, free, i_eq⟩
      exact ⟨fit.bits_fit, free, i_eq⟩

theorem denote_value (settings : Settings) (l : Literal) (a : Attributes) :
    denote settings (.value l a) =
      [a.withBits (a.withRepeats (.write l.value l.radix settings.bits))] := by
  cases repeats : a.repeats <;>
    simp [denote, Attributes.withBits, Attributes.withRepeats, Instruction.write, repeats,
      Operation.usesPin]

theorem denote_command (settings : Settings) (symbol : Char) (op : Operation) (a : Attributes) :
    denote settings (.command symbol op a) =
      [a.withBits (a.withRepeats { op := op, bits := settings.bits })] := by
  cases repeats : a.repeats <;>
    simp [denote, Attributes.withBits, Attributes.withRepeats, repeats]

theorem slots_charWrites (settings : Settings) (c : Char) :
    Program.slots (charWrites settings c) = (charWrites settings c).length := by
  rw [charWrites]
  induction String.utf8EncodeChar c with
  | nil => rfl
  | cons byte bytes induction =>
    rw [List.map_cons, Program.slots_cons, induction, List.length_cons, Nat.add_comm]
    rfl

theorem charWrites_ne_nil (settings : Settings) (c : Char) : charWrites settings c ≠ [] := by
  simp [charWrites]

end Token

namespace Draft

/-- A draft to which the instructions of a program were appended. -/
structure Extends (d later : Draft) (p : Program) : Prop where
  instructions_eq : later.instructions.toList = d.instructions.toList ++ p
  slots_eq : later.slots = d.slots + p.slots

/-- Whether a program can be appended to a draft. One without instructions always can. -/
def Room (settings : Settings) (d : Draft) (p : Program) : Prop :=
  p = [] ∨ d.slots + p.slots < settings.capacity

theorem Extends.trans {d middle later : Draft} {p q : Program} (first : Extends d middle p)
    (second : Extends middle later q) : Extends d later (p ++ q) where
  instructions_eq := by
    rw [second.instructions_eq, first.instructions_eq, List.append_assoc]
  slots_eq := by
    rw [second.slots_eq, first.slots_eq, Program.slots_append, Nat.add_assoc]

theorem extends_push (i : Instruction) (d : Draft) : Extends d (d.push i) [i] where
  instructions_eq := by simp [push]
  slots_eq := by simp [push]

theorem extends_tell_push (e : Event) (i : Instruction) (d : Draft) :
    Extends d ((d.tell e).push i) [i] where
  instructions_eq := by simp [push, tell]
  slots_eq := by simp [push, tell]

theorem extends_foldl_push (p : Program) (d : Draft) :
    Extends d (p.foldl (fun d i => d.push i) d) p := by
  induction p generalizing d with
  | nil => exact ⟨(List.append_nil _).symm, rfl⟩
  | cons i p induction => exact (extends_push i d).trans (induction (d.push i))

theorem events_foldl_push (p : Program) (d : Draft) :
    (p.foldl (fun d i => d.push i) d).events = d.events := by
  induction p generalizing d with
  | nil => rfl
  | cons i p induction => exact induction (d.push i)

theorem room_append {settings : Settings} {d middle : Draft} {p q : Program}
    (extended : Extends d middle p) :
    d.Room settings (p ++ q) ↔ d.Room settings p ∧ middle.Room settings q := by
  have slots_eq := extended.slots_eq
  unfold Room
  rw [Program.slots_append, List.append_eq_nil_iff]
  constructor
  · rintro (⟨rfl, rfl⟩ | fits)
    · exact ⟨.inl rfl, .inl rfl⟩
    · exact ⟨.inr (by omega), .inr (by omega)⟩
  · rintro ⟨first, rfl | fits⟩
    · rcases first with rfl | fits
      · exact .inl ⟨rfl, rfl⟩
      · exact .inr fits
    · exact .inr (by omega)

theorem Room.of_append {settings : Settings} {d : Draft} {p q : Program}
    (room : d.Room settings (p ++ q)) : d.Room settings p :=
  ((room_append (extends_foldl_push p d)).mp room).1

theorem pushText_eq_ok_iff {settings : Settings} {chars : List Char} {i : Input}
    {d later : Draft} :
    d.pushText settings chars i = .ok later ↔
      d.Room settings (chars.flatMap (Token.charWrites settings)) ∧
        later = (chars.flatMap (Token.charWrites settings)).foldl (fun d i => d.push i) d := by
  induction chars generalizing i d with
  | nil => simp [pushText, Room, eq_comm]
  | cons c chars induction =>
    have extended := extends_foldl_push (Token.charWrites settings c) d
    rw [List.flatMap_cons, room_append extended, List.foldl_append, pushText]
    have room_iff : d.Room settings (Token.charWrites settings c) ↔
        d.hasRoom settings.capacity (Token.charWrites settings c).length = true := by
      simp [Room, hasRoom, Token.charWrites_ne_nil, Token.slots_charWrites]
    by_cases room : d.hasRoom settings.capacity (Token.charWrites settings c).length
    · simp only [room, if_true, induction, room_iff, true_and]
    · simp [room, room_iff]

theorem pushCommand_eq_ok_iff {settings : Settings} {role : Nat → PinRole} {symbol : Char}
    {start rest : Input} {a : Attributes} {plain i : Instruction} {d later : Draft}
    (i_eq : i = a.withBits (a.withRepeats plain)) :
    d.pushCommand settings role symbol start rest a plain = .ok later ↔
      a.Fit settings plain.op ∧ a.PinFree role plain.op ∧ d.Room settings [i] ∧
        later = (d.tell (.appended i start.tokenPosition)).push i := by
  have room_iff : d.Room settings [i] ↔ d.hasRoom settings.capacity i.slotCost = true := by
    simp [Room, hasRoom]
  rw [pushCommand]
  split
  next reason applied =>
    constructor
    · intro impossible
      contradiction
    · rintro ⟨fit, free, -⟩
      rw [Token.applyAttributes_eq_ok_iff.mpr ⟨fit, free, rfl⟩] at applied
      contradiction
  next j applied =>
    obtain ⟨fit, free, j_eq⟩ := Token.applyAttributes_eq_ok_iff.mp applied
    obtain rfl := i_eq.trans j_eq.symm
    by_cases room : d.hasRoom settings.capacity i.slotCost
    · simp [room, room_iff, fit, free, eq_comm]
    · simp [room, room_iff]

/-- A token that is appended is in range, its pin is free, there was room for it, and the draft has
what it stands for. -/
theorem extends_of_append {settings : Settings} {role : Nat → PinRole} {symbol : Char}
    {start rest : Input} {d later : Draft} {t : Token}
    (appended : d.append settings role symbol start rest t = .ok later) :
    (t.Fits settings ∧ t.PinFree role) ∧ d.Room settings (t.denote settings) ∧
      Extends d later (t.denote settings) := by
  cases t with
  | value l a =>
    obtain ⟨fit, free, room, rfl⟩ := (pushCommand_eq_ok_iff rfl).mp appended
    rw [Token.denote_value]
    exact ⟨⟨fit, trivial⟩, room, extends_tell_push _ _ _⟩
  | command symbol op a =>
    obtain ⟨fit, free, room, rfl⟩ := (pushCommand_eq_ok_iff rfl).mp appended
    rw [Token.denote_command]
    exact ⟨⟨fit, free⟩, room, extends_tell_push _ _ _⟩
  | text chars =>
    obtain ⟨room, rfl⟩ := pushText_eq_ok_iff.mp appended
    rw [Token.denote_text]
    exact ⟨⟨trivial, trivial⟩, room, extends_foldl_push _ _⟩

theorem exists_append {settings : Settings} {role : Nat → PinRole} (symbol : Char)
    (start rest : Input) {d : Draft} {t : Token} (fits : t.Fits settings) (free : t.PinFree role)
    (room : d.Room settings (t.denote settings)) :
    ∃ later, d.append settings role symbol start rest t = .ok later := by
  cases t with
  | value l a =>
    rw [Token.denote_value] at room
    have unclaimed : a.PinFree role .write := by
      intro claims
      contradiction
    exact ⟨_, (pushCommand_eq_ok_iff rfl).mpr ⟨fits, unclaimed, room, rfl⟩⟩
  | command symbol op a =>
    rw [Token.denote_command] at room
    exact ⟨_, (pushCommand_eq_ok_iff rfl).mpr ⟨fits, free, room, rfl⟩⟩
  | text chars =>
    rw [Token.denote_text] at room
    exact ⟨_, pushText_eq_ok_iff.mpr ⟨room, rfl⟩⟩

theorem exists_fail_of_pushText {settings : Settings} {chars : List Char} {i : Input} {d : Draft}
    {stopped : Compilation} (failed : d.pushText settings chars i = .error stopped) :
    ∃ (middle : Draft) (j : Input), middle.events = d.events ∧
      stopped = middle.fail (.exceedsCapacity settings.capacity) j := by
  induction chars generalizing i d with
  | nil => contradiction
  | cons c chars induction =>
    rw [pushText] at failed
    split at failed
    next =>
      obtain ⟨middle, j, events_eq, stopped_eq⟩ := induction failed
      exact ⟨middle, j, events_eq.trans (events_foldl_push _ _), stopped_eq⟩
    next => exact ⟨d, _, rfl, (Except.error.inj failed).symm⟩

theorem exists_fail_of_pushCommand {settings : Settings} {role : Nat → PinRole} {symbol : Char}
    {start rest : Input} {a : Attributes} {plain : Instruction} {d : Draft}
    {stopped : Compilation}
    (failed : d.pushCommand settings role symbol start rest a plain = .error stopped) :
    ∃ reason, stopped = d.fail reason rest := by
  rw [pushCommand] at failed
  split at failed
  next => exact ⟨_, (Except.error.inj failed).symm⟩
  next =>
    split at failed
    next => contradiction
    next => exact ⟨_, (Except.error.inj failed).symm⟩

/-- Where a token is not appended, the compilation stops with a reason. -/
theorem exists_reason_of_append {settings : Settings} {role : Nat → PinRole} {symbol : Char}
    {start rest : Input} {d : Draft} {t : Token} {stopped : Compilation}
    (failed : d.append settings role symbol start rest t = .error stopped) :
    ∃ reason, stopped.result = .error reason := by
  cases t with
  | value | command =>
    obtain ⟨reason, rfl⟩ := exists_fail_of_pushCommand failed
    exact ⟨reason, rfl⟩
  | text =>
    obtain ⟨middle, j, -, rfl⟩ := exists_fail_of_pushText failed
    exact ⟨_, rfl⟩

end Draft

end BusScript
