import BusScript.CommandLine.Console
import BusScript.Proofs.Text.Lines
import Mathlib.Data.List.Basic

/-!
# Lines on standard input

What is read from standard input when it holds some texts with line feeds between them: the texts
themselves, but for a carriage return at the end of a text that is not the last, and for a last text
that is empty. The bytes of a line feed and a carriage return encode nothing else.
-/

namespace BusScript.CommandLine

/-- The bytes of a text. -/
def encode (text : List Char) : List UInt8 :=
  text.flatMap String.utf8EncodeChar

theorem encode_append (front back : List Char) :
    encode (front ++ back) = encode front ++ encode back :=
  List.flatMap_append

theorem encode_toList (s : String) : encode s.toList = s.toUTF8.data.toList := by
  rw [String.toUTF8_eq_toByteArray, ← String.utf8Encode_toList, List.utf8Encode,
    List.toList_data_toByteArray]
  rfl

/-- A byte below `128` encodes the character with that code and is part of no other. -/
theorem toNat_eq_of_mem_utf8EncodeChar {c : Char} {byte : UInt8}
    (member : byte ∈ String.utf8EncodeChar c) (small : byte.toNat < 128) :
    c.toNat = byte.toNat := by
  rw [String.utf8EncodeChar] at member
  split at member
  next ascii =>
    obtain rfl := List.mem_singleton.mp member
    rw [UInt8.toNat_ofNat_of_lt' (Nat.lt_of_le_of_lt ascii (by decide))]
    rfl
  next =>
    -- All bytes of the longer encodings have their highest bit set.
    exfalso
    split at member
    · simp only [List.mem_cons, List.not_mem_nil, or_false] at member
      rcases member with rfl | rfl <;> simp at small <;> omega
    · split at member
      · simp only [List.mem_cons, List.not_mem_nil, or_false] at member
        rcases member with rfl | rfl | rfl <;> simp at small <;> omega
      · simp only [List.mem_cons, List.not_mem_nil, or_false] at member
        rcases member with rfl | rfl | rfl | rfl <;> simp at small <;> omega

theorem lineFeed_notMem_encode {text : List Char} (apart : '\n' ∉ text) :
    lineFeed ∉ encode text := by
  intro member
  obtain ⟨c, inside, member⟩ := List.mem_flatMap.mp member
  have code_eq : c.toNat = '\n'.toNat := toNat_eq_of_mem_utf8EncodeChar member (by decide)
  exact apart (Char.toNat_inj.mp code_eq ▸ inside)

theorem encode_intercalate (texts : List (List Char)) :
    encode (['\n'].intercalate texts) = [lineFeed].intercalate (texts.map encode) := by
  induction texts with
  | nil => rfl
  | cons text texts induction =>
    cases texts with
    | nil => rw [List.intercalate_singleton, List.map_singleton, List.intercalate_singleton]
    | cons next texts =>
      rw [List.intercalate_cons_cons, encode_append, encode_append, induction, List.map_cons,
        List.map_cons, List.map_cons, List.intercalate_cons_cons]
      rfl

theorem decode?_encode (text : List Char) : decode? (encode text) = some (String.ofList text) := by
  have bytes_eq : ByteArray.mk (encode text).toArray = (String.ofList text).toByteArray := by
    have encoded := encode_toList (String.ofList text)
    rw [String.toList_ofList] at encoded
    rw [encoded]
    rfl
  rw [decode?, bytes_eq, String.fromUTF8?, dif_pos (String.isValidUTF8 _)]
  rfl

/-- A text without the carriage return at its end, if there is one. -/
def withoutReturn (text : List Char) : List Char :=
  if text.getLast? = some '\r' then text.dropLast else text

theorem dropReturn_encode (text : List Char) :
    dropReturn (encode text) = encode (withoutReturn text) := by
  obtain rfl | ⟨front, c, rfl⟩ := List.eq_nil_or_concat' text
  · rfl
  · rw [withoutReturn, List.getLast?_concat, List.dropLast_concat, dropReturn]
    by_cases is_return : c = '\r'
    · subst is_return
      have encode_eq : encode (front ++ ['\r']) = encode front ++ [carriageReturn] :=
        encode_append _ _
      rw [encode_eq, List.getLast?_concat, if_pos rfl, if_pos rfl, List.dropLast_concat]
    · have other : (encode (front ++ [c])).getLast? ≠ some carriageReturn := by
        intro last
        have char_eq : encode [c] = String.utf8EncodeChar c := List.append_nil _
        rw [encode_append, char_eq,
          List.getLast?_append_of_ne_nil _ (String.utf8EncodeChar_ne_nil)] at last
        have code_eq : c.toNat = '\r'.toNat :=
          toNat_eq_of_mem_utf8EncodeChar (List.mem_of_getLast? last) (by decide)
        exact is_return (Char.toNat_inj.mp code_eq)
      rw [if_neg other, if_neg fun is_some => is_return (Option.some.inj is_some)]

/-- The lines that texts with line feeds between them are read as. -/
def inputLines (texts : List (List Char)) : List (List Char) :=
  texts.dropLast.map withoutReturn ++ texts.getLast?.toList.filter fun last => !last.isEmpty

theorem inputLines_cons_cons (text next : List Char) (texts : List (List Char)) :
    inputLines (text :: next :: texts) = withoutReturn text :: inputLines (next :: texts) := by
  rw [inputLines, List.dropLast_cons_cons, List.map_cons, List.cons_append,
    List.getLast?_cons_cons]
  rfl

theorem byteLines_encode {texts : List (List Char)} (some_text : texts ≠ [])
    (apart : ∀ text ∈ texts, '\n' ∉ text) :
    byteLines (encode (['\n'].intercalate texts)) = (inputLines texts).map encode := by
  have apart_bytes : ∀ bytes ∈ texts.map encode, lineFeed ∉ bytes := by
    rw [List.forall_mem_map]
    exact fun text member => lineFeed_notMem_encode (apart text member)
  have segments_eq := Text.segments_intercalate (by simpa using some_text) apart_bytes
  have returns_eq (texts : List (List Char)) :
      (texts.map encode).map dropReturn = (texts.map withoutReturn).map encode := by
    rw [List.map_map, List.map_map]
    exact List.map_congr_left fun text _ => dropReturn_encode text
  have last_eq (last : List Char) : ([encode last].filter fun bytes => !bytes.isEmpty) =
      ([last].filter fun text => !text.isEmpty).map encode := by
    cases last with
    | nil => rfl
    | cons c text => simp [encode]
  obtain ⟨earlier, last, rfl⟩ := (List.eq_nil_or_concat' texts).resolve_left some_text
  rw [byteLines, encode_intercalate, segments_eq, inputLines, List.map_append, List.map_singleton,
    List.dropLast_concat, List.dropLast_concat, List.getLast?_concat, List.getLast?_concat,
    returns_eq, List.map_append]
  exact congrArg _ (last_eq last)

theorem decodeLines_map_encode (texts : List (List Char)) :
    decodeLines (texts.map encode) = (texts.map String.ofList, false) := by
  induction texts with
  | nil => rfl
  | cons text texts induction =>
    rw [List.map_cons, decodeLines, decode?_encode]
    simp only [induction, List.map_cons]

end BusScript.CommandLine
