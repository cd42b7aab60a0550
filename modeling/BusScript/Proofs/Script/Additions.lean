import BusScript.Proofs.Script.Acceptance

/-!
# What an observer is told of a line

Compiling a line adds what its tokens stand for, one token after the other, until one of them is
refused; and of a quoted text for which there is no room it adds the part for which there is. An
observer is told of every addition in turn unless it comes from a quoted text, and then of the
outcome.
-/

namespace BusScript

/-- An instruction that was appended, and the token it comes from. -/
structure Addition where
  instruction : Instruction
  /-- Where the token begins, counted from one. -/
  position : Nat
  /-- Whether the token is a quoted text. -/
  quoted : Bool
deriving DecidableEq, Repr

/-- What an observer is told of an addition. -/
def Addition.event (a : Addition) : Event :=
  .appended a.instruction a.position

/-- What an observer is told of additions: nothing of those that come from a quoted text. -/
def told (added : List Addition) : List Event :=
  (added.filter fun a => !a.quoted).map Addition.event

namespace Token

/-- Whether a token is a quoted text. -/
def isText : Token → Bool
  | .text _ => true
  | .value _ _ | .command _ _ _ => false

/-- What a token at the given position stands for. -/
def additions (settings : Settings) (position : Nat) (t : Token) : List Addition :=
  (t.denote settings).map fun i => { instruction := i, position := position, quoted := t.isText }

/-- Whether a token is appended behind what is charged for so many slots. -/
structure Taken (settings : Settings) (role : Nat → PinRole) (slots : Nat) (t : Token) :
    Prop where
  fits : t.Fits settings
  free : t.PinFree role
  room : t.denote settings = [] ∨ slots + (t.denote settings).slots < settings.capacity

/-- What is appended of a token that is refused: of a quoted text as many writes as there is room
for, each in a slot, and nothing of any other token. -/
def remnant (settings : Settings) (slots position : Nat) (t : Token) : List Addition :=
  if t.isText then (t.additions settings position).take (settings.capacity - 1 - slots) else []

end Token

/-- The additions that compiling what is unread makes, behind what is charged for so many slots. -/
inductive Adds (settings : Settings) (role : Nat → PinRole) : Nat → Input → List Addition → Prop
  | nil {slots : Nat} {i : Input} (rest_eq : i.rest = []) : Adds settings role slots i []
  | separator {slots : Nat} {i : Input} {c : Char} {text : List Char} {added : List Addition}
      (rest_eq : i.rest = c :: text) (separates : isSeparator c = true)
      (later : Adds settings role slots (i.advance 1) added) : Adds settings role slots i added
  | token {slots : Nat} {i rest : Input} {c : Char} {text : List Char} {t : Token}
      {added : List Addition} (rest_eq : i.rest = c :: text) (ordinary : isSeparator c = false)
      (read_eq : Token.read c i = .ok (t, rest)) (taken : t.Taken settings role slots)
      (later : Adds settings role (slots + (t.denote settings).slots) rest added) :
      Adds settings role slots i (t.additions settings i.tokenPosition ++ added)
  | unread {slots : Nat} {i : Input} {c : Char} {text : List Char} {failure : Failure}
      (rest_eq : i.rest = c :: text) (ordinary : isSeparator c = false)
      (read_eq : Token.read c i = .error failure) : Adds settings role slots i []
  | refused {slots : Nat} {i rest : Input} {c : Char} {text : List Char} {t : Token}
      (rest_eq : i.rest = c :: text) (ordinary : isSeparator c = false)
      (read_eq : Token.read c i = .ok (t, rest)) (refused : ¬ t.Taken settings role slots) :
      Adds settings role slots i (t.remnant settings slots i.tokenPosition)

@[simp] theorem told_append (first second : List Addition) :
    told (first ++ second) = told first ++ told second := by
  rw [told, told, told, List.filter_append, List.map_append]

theorem told_eq_nil {added : List Addition} (all_quoted : ∀ a ∈ added, a.quoted = true) :
    told added = [] := by
  rw [told, List.map_eq_nil_iff, List.filter_eq_nil_iff]
  intro a member
  rw [all_quoted a member]
  decide

/-- Everything is told exactly if nothing comes from a quoted text. -/
theorem told_eq_map_event_iff (added : List Addition) :
    told added = added.map Addition.event ↔ ∀ a ∈ added, a.quoted = false := by
  constructor
  · intro all_told
    have length_eq : (added.filter fun a => !a.quoted).length = added.length := by
      simpa [told] using congrArg List.length all_told
    simpa using List.length_filter_eq_length_iff.mp length_eq
  · intro none_quoted
    rw [told, List.filter_eq_self.mpr (by simpa using none_quoted)]

namespace Token

variable {settings : Settings} {role : Nat → PinRole} {slots position : Nat} {t : Token}

@[simp] theorem map_instruction_additions (settings : Settings) (position : Nat) (t : Token) :
    (t.additions settings position).map Addition.instruction = t.denote settings := by
  rw [additions, List.map_map]
  exact List.map_id _

theorem quoted_of_mem_additions {a : Addition} (member : a ∈ t.additions settings position) :
    a.quoted = t.isText := by
  obtain ⟨i, -, rfl⟩ := List.mem_map.mp member
  rfl

theorem told_additions_of_isText (quoted : t.isText = true) :
    told (t.additions settings position) = [] :=
  told_eq_nil fun _ member => (quoted_of_mem_additions member).trans quoted

/-- Nothing is told of a token that is refused. -/
theorem told_remnant : told (t.remnant settings slots position) = [] := by
  rw [remnant]
  split
  next quoted =>
    exact told_eq_nil fun _ member =>
      (quoted_of_mem_additions (List.mem_of_mem_take member)).trans quoted
  next => rfl

end Token

namespace Draft

variable {settings : Settings} {role : Nat → PinRole} {c : Char} {start rest : Input}
  {d later : Draft} {t : Token} {stopped : Compilation}

theorem exists_append_iff_taken (c : Char) (start rest : Input) :
    (∃ later, d.append settings role c start rest t = .ok later) ↔
      t.Taken settings role d.slots := by
  constructor
  · rintro ⟨later, appended⟩
    obtain ⟨⟨fits, free⟩, room, -⟩ := extends_of_append appended
    exact ⟨fits, free, room⟩
  · intro taken
    exact exists_append c start rest taken.fits taken.free taken.room

/-- One step: a token that is appended is told of unless it is a quoted text. -/
theorem events_of_append (appended : d.append settings role c start rest t = .ok later) :
    later.events.toList = d.events.toList ++ told (t.additions settings start.tokenPosition) := by
  cases t with
  | value l a =>
    obtain ⟨-, -, -, rfl⟩ := (pushCommand_eq_ok_iff rfl).mp appended
    rw [Token.additions, Token.denote_value]
    exact Array.toList_push
  | command symbol op a =>
    obtain ⟨-, -, -, rfl⟩ := (pushCommand_eq_ok_iff rfl).mp appended
    rw [Token.additions, Token.denote_command]
    exact Array.toList_push
  | text chars =>
    obtain ⟨-, rfl⟩ := pushText_eq_ok_iff.mp appended
    rw [events_foldl_push, Token.told_additions_of_isText rfl, List.append_nil]

theorem events_of_append_error (failed : d.append settings role c start rest t = .error stopped) :
    stopped.events = d.events.toList := by
  cases t with
  | value | command =>
    obtain ⟨reason, rfl⟩ := exists_fail_of_pushCommand failed
    rfl
  | text =>
    obtain ⟨middle, j, events_eq, rfl⟩ := exists_fail_of_pushText failed
    exact congrArg Array.toList events_eq

end Draft

section Compile

variable {settings : Settings} {role : Nat → PinRole} {slots : Nat} {i : Input}
  {added : List Addition}

/-- What is unread determines what is added. -/
theorem Adds.unique {other : List Addition} (adds : Adds settings role slots i added)
    (adds_other : Adds settings role slots i other) : other = added := by
  induction adds generalizing other with
  | nil rest_eq =>
    cases adds_other with
    | nil => rfl
    | _ => simp_all
  | separator rest_eq separates _ induction =>
    cases adds_other with
    | separator _ _ later => exact induction later
    | _ => simp_all
  | token rest_eq ordinary read_eq taken _ induction =>
    cases adds_other with
    | token other_eq _ other_read _ later =>
      obtain ⟨rfl, -⟩ := List.cons.inj (rest_eq.symm.trans other_eq)
      obtain ⟨rfl, rfl⟩ := Prod.mk.inj (Except.ok.inj (read_eq.symm.trans other_read))
      rw [induction later]
    | _ => simp_all
  | unread rest_eq ordinary read_eq =>
    cases adds_other with
    | unread => rfl
    | _ => simp_all
  | refused rest_eq ordinary read_eq refused =>
    cases adds_other with
    | refused other_eq _ other_read _ =>
      obtain ⟨rfl, -⟩ := List.cons.inj (rest_eq.symm.trans other_eq)
      obtain ⟨rfl, rfl⟩ := Prod.mk.inj (Except.ok.inj (read_eq.symm.trans other_read))
      rfl
    | _ => simp_all

/-- A whole run: what is unread is added to the draft token by token, and told of as it is added. -/
theorem exists_adds_of_compileFrom (settings : Settings) (role : Nat → PinRole) (d : Draft)
    (i : Input) :
    ∃ added, Adds settings role d.slots i added ∧
      (compileFrom settings role d i).events = d.events.toList ++ told added ∧
      ∀ p, (compileFrom settings role d i).result = .ok p →
        p = d.instructions.toList ++ added.map Addition.instruction := by
  fun_induction compileFrom settings role d i with
  | case1 d i rest_eq =>
    refine ⟨[], .nil rest_eq, (List.append_nil _).symm, ?_⟩
    rintro p ⟨⟩
    exact (List.append_nil _).symm
  | case2 d i c text rest_eq separates induction =>
    obtain ⟨added, adds, account⟩ := induction
    exact ⟨added, .separator rest_eq separates adds, account⟩
  | case3 d i c text rest_eq ordinary failure read_eq =>
    rw [Bool.not_eq_true] at ordinary
    refine ⟨[], .unread rest_eq ordinary read_eq, (List.append_nil _).symm, ?_⟩
    intro p impossible
    contradiction
  | case4 d i c text rest_eq ordinary t rest read_eq stopped append_eq =>
    rw [Bool.not_eq_true] at ordinary
    have refused : ¬ t.Taken settings role d.slots := by
      rw [← Draft.exists_append_iff_taken c i rest, append_eq]
      simp
    refine ⟨_, .refused rest_eq ordinary read_eq refused, ?_, ?_⟩
    · rw [Draft.events_of_append_error append_eq, Token.told_remnant, List.append_nil]
    · intro p compiled
      obtain ⟨reason, result_eq⟩ := Draft.exists_reason_of_append append_eq
      rw [result_eq] at compiled
      contradiction
  | case5 d i c text rest_eq ordinary t rest read_eq later append_eq induction =>
    rw [Bool.not_eq_true] at ordinary
    have taken : t.Taken settings role d.slots :=
      (Draft.exists_append_iff_taken c i rest).mp ⟨later, append_eq⟩
    obtain ⟨-, -, extended⟩ := Draft.extends_of_append append_eq
    obtain ⟨added, adds, events_eq, program_eq⟩ := induction
    rw [extended.slots_eq] at adds
    refine ⟨_, .token rest_eq ordinary read_eq taken adds, ?_, fun p compiled => ?_⟩
    · rw [events_eq, Draft.events_of_append append_eq, told_append, List.append_assoc]
    · rw [program_eq p compiled, extended.instructions_eq, List.map_append,
        Token.map_instruction_additions, List.append_assoc]

end Compile

namespace Cursor

/-- An observer of a compilation is told of every instruction that is added but those of quoted
texts, in order, between a beginning and an outcome. -/
theorem events_of_compile (settings : Settings) (role : Nat → PinRole) (line : Cursor) :
    let compilation := (line.compile settings role).1
    ∃ added, Adds settings role 0 line.input added ∧
      (∀ other, Adds settings role 0 line.input other → other = added) ∧
      (∀ p, compilation.result = .ok p → p = added.map Addition.instruction ∧
        compilation.events = .compileBegins settings.capacity :: told added ++
          [.compiled p.length p.slots]) ∧
      (∀ reason, compilation.result = .error reason →
        compilation.events = .compileBegins settings.capacity :: told added ++
          [.rejected reason]) ∧
      (told added = added.map Addition.event ↔ ∀ a ∈ added, a.quoted = false) := by
  intro compilation
  obtain ⟨added, adds, events_eq, program_eq⟩ :=
    exists_adds_of_compileFrom settings role {} line.input
  have told_eq : compilation.events = .compileBegins settings.capacity :: told added ++
      [(compileFrom settings role {} line.input).verdict] := by
    simp only [compilation, compile, BusScript.compile, events_eq]
    rfl
  refine ⟨added, adds, fun other => adds.unique, fun p compiled => ?_, fun reason failed => ?_,
    told_eq_map_event_iff added⟩
  · refine ⟨program_eq p compiled, ?_⟩
    rw [told_eq, Compilation.verdict, show (compileFrom _ _ _ _).result = _ from compiled]
  · rw [told_eq, Compilation.verdict, show (compileFrom _ _ _ _).result = _ from failed]

/-- A quoted letter is compiled to a write, and an observer is told of none. -/
theorem write_of_quoted_letter_untold :
    let line : Cursor := { line := ['"', 'a', '"'] }
    let compilation := (line.compile {} fun _ => .io).1
    compilation.result = .ok [.write 0x61 .ascii 8] ∧
      compilation.events = [.compileBegins 1024, .compiled 1 1] := by
  intro line compilation
  have result_eq : compilation.result = .ok [.write 0x61 .ascii 8] := by cbv
  have events_eq : compilation.events = [.compileBegins 1024, .compiled 1 1] := by cbv
  exact ⟨result_eq, events_eq⟩

end Cursor

end BusScript
