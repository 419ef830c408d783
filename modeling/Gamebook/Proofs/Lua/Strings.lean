/-
# Gamebook.Proofs.Lua.Strings — reading double-quoted strings back

Lua reads a double-quoted string item by item: a character that stands for itself, or a backslash and what
belongs to it. The rules here are those of Lua 5.4. The value is a sequence of bytes, since an escape may
give any byte; a character outside escapes gives its bytes in UTF-8. A line break that is not escaped ends
the reading without a result, and so does the end of the text.

What `quoted` writes is read back, whatever text follows it (`readQuoted_quoted`). Of the escapes by number
the decimal ones take up to three digits and so have to be written with three; the ones between braces end
by themselves.
-/
import Gamebook.Decimal.Numeral
import Gamebook.Lua.Quoted
import Mathlib.Data.List.TakeWhile

namespace Gamebook.Lua

/-! ## Reading -/

/-- The value of a hexadecimal digit. -/
def hexValue? (c : Char) : Option Nat :=
  if c.isDigit then some (c.toNat - '0'.toNat)
  else if 'a' ≤ c ∧ c ≤ 'f' then some (c.toNat - 'a'.toNat + 10)
  else if 'A' ≤ c ∧ c ≤ 'F' then some (c.toNat - 'A'.toNat + 10)
  else none

/-- The value of a run of hexadecimal digits. -/
def hexNumber (ds : List Char) : Nat := ds.foldl (fun n d => 16 * n + (hexValue? d).getD 0) 0

/-- The bytes of a code point below `2 ^ 31`, in UTF-8 with up to six bytes. -/
def codeBytes (n : Nat) : List UInt8 :=
  -- The continuation byte with the six bits from bit `k` on.
  let more (k : Nat) : UInt8 := .ofNat (0x80 + (n >>> k) % 64)
  if n < 0x80 then [.ofNat n]
  else if n < 0x800 then [.ofNat (0xC0 + n >>> 6), more 0]
  else if n < 0x10000 then [.ofNat (0xE0 + n >>> 12), more 6, more 0]
  else if n < 0x200000 then [.ofNat (0xF0 + n >>> 18), more 12, more 6, more 0]
  else if n < 0x4000000 then [.ofNat (0xF8 + n >>> 24), more 18, more 12, more 6, more 0]
  else [.ofNat (0xFC + n >>> 30), more 24, more 18, more 12, more 6, more 0]

/-- The characters that stand for one byte after a backslash. -/
def shortEscapes : List (Char × UInt8) := [
  ('a', 7), ('b', 8), ('t', 9), ('n', 10), ('v', 11), ('f', 12), ('r', 13), ('"', 34), ('\x27', 39),
  ('\\', 92)]

/-- The white space of Lua. -/
def isLuaSpace (c : Char) : Bool := c = ' ' || ('\t' ≤ c && c ≤ '\r')

/-- The rest of the text after the first character, if that is `c`. -/
def skipChar (c : Char) : List Char → List Char
  | [] => []
  | d :: ds => if d = c then ds else d :: ds

/-- A byte by number, in up to three decimal digits. -/
def readDecimal (cs : List Char) : Option (List UInt8 × List Char) :=
  let digits := (cs.take 3).takeWhile Char.isDigit
  if Decimal.value digits < 256 then some ([.ofNat (Decimal.value digits)], cs.drop digits.length)
  else none

/-- A byte by number, in two hexadecimal digits. -/
def readPair : List Char → Option (List UInt8 × List Char)
  | d :: e :: cs =>
    match hexValue? d, hexValue? e with
    | some a, some b => some ([.ofNat (16 * a + b)], cs)
    | _, _ => none
  | _ => none

/-- A code point by number, in hexadecimal digits between braces. -/
def readCode : List Char → Option (List UInt8 × List Char)
  | '{' :: cs =>
    let digits := cs.takeWhile fun d => (hexValue? d).isSome
    match cs.dropWhile fun d => (hexValue? d).isSome with
    | '}' :: rest =>
      if digits ≠ [] ∧ hexNumber digits < 0x80000000 then some (codeBytes (hexNumber digits), rest) else none
    | _ => none
  | _ => none

/-- What a backslash before the text stands for, and the rest of the text. A line break counts as a line
feed, also if it is spelled in two characters. -/
def readEscape : List Char → Option (List UInt8 × List Char)
  | [] => none
  | c :: cs =>
    if c.isDigit then readDecimal (c :: cs)
    else if c = 'x' then readPair cs
    else if c = 'u' then readCode cs
    else if c = 'z' then some ([], cs.dropWhile isLuaSpace)
    else if c = '\n' then some ([10], skipChar '\r' cs)
    else if c = '\r' then some ([10], skipChar '\n' cs)
    else (shortEscapes.lookup c).map fun byte => ([byte], cs)

/-- What the first item of the text between the quotes stands for, and the rest of the text. -/
def readItem (c : Char) (cs : List Char) : Option (List UInt8 × List Char) :=
  if c = '\\' then readEscape cs
  else if c = '\n' ∨ c = '\r' then none
  else some (String.utf8EncodeChar c, cs)

theorem length_skipChar_le (c : Char) (cs : List Char) : (skipChar c cs).length ≤ cs.length := by
  cases cs with
  | nil => exact Nat.le_refl _
  | cons d ds =>
    rw [skipChar]
    split
    · exact Nat.le_succ _
    · exact Nat.le_refl _

theorem length_readDecimal {cs rest : List Char} {bytes : List UInt8}
    (h : readDecimal cs = some (bytes, rest)) : rest.length ≤ cs.length := by
  simp only [readDecimal, Option.ite_none_right_eq_some, Option.some.injEq, Prod.mk.injEq] at h
  rw [← h.2.2, List.length_drop]
  omega

theorem length_readPair {cs rest : List Char} {bytes : List UInt8}
    (h : readPair cs = some (bytes, rest)) : rest.length ≤ cs.length := by
  unfold readPair at h
  split at h
  · split at h
    · cases h
      simp only [List.length_cons]
      omega
    · cases h
  · cases h

theorem length_readCode {cs rest : List Char} {bytes : List UInt8}
    (h : readCode cs = some (bytes, rest)) : rest.length ≤ cs.length := by
  unfold readCode at h
  split at h
  · next cs =>
    simp only at h
    split at h
    · next rest' hdrop =>
      have hlength := (List.dropWhile_suffix (l := cs) fun d => (hexValue? d).isSome).length_le
      rw [hdrop, List.length_cons] at hlength
      simp only [Option.ite_none_right_eq_some, Option.some.injEq, Prod.mk.injEq] at h
      rw [← h.2.2, List.length_cons]
      omega
    · cases h
  · cases h

theorem length_readEscape {cs rest : List Char} {bytes : List UInt8}
    (h : readEscape cs = some (bytes, rest)) : rest.length ≤ cs.length := by
  cases cs with
  | nil => cases h
  | cons c cs =>
    have hless : ∀ {rest : List Char}, rest.length ≤ cs.length → rest.length ≤ (c :: cs).length :=
      fun hle => Nat.le_succ_of_le hle
    rw [readEscape] at h
    split at h
    · exact length_readDecimal h
    · split at h
      · exact hless (length_readPair h)
      · split at h
        · exact hless (length_readCode h)
        · split at h
          · cases h
            exact hless (List.dropWhile_suffix _).length_le
          · split at h
            · cases h
              exact hless (length_skipChar_le _ _)
            · split at h
              · cases h
                exact hless (length_skipChar_le _ _)
              · obtain ⟨byte, -, hpair⟩ := Option.map_eq_some_iff.mp h
                cases hpair
                exact hless (Nat.le_refl _)

theorem length_readItem {c : Char} {cs rest : List Char} {bytes : List UInt8}
    (h : readItem c cs = some (bytes, rest)) : rest.length ≤ cs.length := by
  unfold readItem at h
  split at h
  · exact length_readEscape h
  · split at h
    · cases h
    · cases h
      exact Nat.le_refl _

/-- The value of a string of which the opening quote has been read, and the text after it. -/
def readBody : List Char → Option (List UInt8 × List Char)
  | [] => none
  | c :: cs =>
    if c = '"' then some ([], cs)
    else
      match h : readItem c cs with
      | none => none
      | some (bytes, rest) =>
        have : rest.length < cs.length + 1 := Nat.lt_succ_of_le (length_readItem h)
        (readBody rest).map fun r => (bytes ++ r.1, r.2)
termination_by cs => cs.length

theorem readBody_quote (cs : List Char) : readBody ('"' :: cs) = some ([], cs) := by
  rw [readBody, if_pos rfl]

theorem readBody_item {c : Char} {cs rest : List Char} {bytes : List UInt8} (hc : c ≠ '"')
    (h : readItem c cs = some (bytes, rest)) :
    readBody (c :: cs) = (readBody rest).map fun r => (bytes ++ r.1, r.2) := by
  rw [readBody, if_neg hc]
  split
  · next hnone =>
    rw [h] at hnone
    cases hnone
  · next bytes' rest' hsome =>
    rw [h] at hsome
    cases hsome
    rfl

theorem length_readBody {cs rest : List Char} {bytes : List UInt8}
    (h : readBody cs = some (bytes, rest)) : rest.length < cs.length := by
  fun_induction readBody cs generalizing bytes with
  | case1 => cases h
  | case2 cs =>
    cases h
    exact Nat.lt_succ_self _
  | case3 => cases h
  | case4 c cs hc item after hitem hlength ih =>
    obtain ⟨⟨bytes', rest'⟩, hrest, hpair⟩ := Option.map_eq_some_iff.mp h
    cases hpair
    have hafter := ih hrest
    rw [List.length_cons]
    omega

/-! ## Reading back what is written -/

/-- The bytes of a string in UTF-8. -/
def bytes (s : String) : List UInt8 := s.toList.flatMap String.utf8EncodeChar

/-- Three digits after a backslash are read as one byte, whatever follows. -/
theorem readEscape_digits {ds : List Char} (hlength : ds.length = 3) (hdigit : ds.all Char.isDigit = true)
    (hvalue : Decimal.value ds < 256) (rest : List Char) :
    readEscape (ds ++ rest) = some ([.ofNat (Decimal.value ds)], rest) := by
  have htaken : ((ds ++ rest).take 3).takeWhile Char.isDigit = ds := by
    rw [← hlength, List.take_left]
    exact List.takeWhile_eq_self_iff.mpr (List.all_eq_true.mp hdigit)
  have hdecimal : readDecimal (ds ++ rest) = some ([.ofNat (Decimal.value ds)], rest) := by
    simp only [readDecimal, htaken, if_pos hvalue, List.drop_left]
  cases ds with
  | nil => cases hlength
  | cons d ds =>
    rw [List.all_cons, Bool.and_eq_true] at hdigit
    rw [← hdecimal, List.cons_append, readEscape, if_pos hdigit.1]

theorem hexValue?_hexDigit : ∀ n < 16, hexValue? (hexDigit n) = some n := by decide

/-- Two hexadecimal digits between braces are read as one code point. -/
theorem readEscape_hex {n : Nat} (h : n < 256) (rest : List Char) :
    readEscape ('u' :: '{' :: hexDigit (n / 16) :: hexDigit (n % 16) :: '}' :: rest)
      = some (codeBytes n, rest) := by
  have hhigh := hexValue?_hexDigit (n / 16) (by omega)
  have hlow := hexValue?_hexDigit (n % 16) (by omega)
  have hvalue : hexNumber [hexDigit (n / 16), hexDigit (n % 16)] = n := by
    simp only [hexNumber, List.foldl_cons, List.foldl_nil, hhigh, hlow, Option.getD_some]
    omega
  have hbrace : (hexValue? '}').isSome = false := by decide
  rw [readEscape, if_neg (by decide), if_neg (by decide), if_pos rfl]
  simp only [readCode, List.takeWhile_cons, List.dropWhile_cons, hhigh, hlow, hbrace, Option.isSome_some,
    if_true, Bool.false_eq_true, if_false, hvalue]
  rw [if_pos ⟨List.cons_ne_nil _ _, by omega⟩]

/-! ### Characters -/

/-- A control character of ASCII is written with three digits that give its byte. -/
theorem decimalEscape_digits : ∀ n < 0x80, ((Nat.toDigits 10 n).leftpad 3 '0').length = 3 ∧
    ((Nat.toDigits 10 n).leftpad 3 '0').all Char.isDigit = true ∧
    Decimal.value ((Nat.toDigits 10 n).leftpad 3 '0') = n ∧
    String.utf8EncodeChar (Char.ofNat n) = [.ofNat n] := by decide +kernel

/-- The controls beyond ASCII have two bytes. -/
theorem codeBytes_control : ∀ n < 0xA0, 0x80 ≤ n → String.utf8EncodeChar (Char.ofNat n) = codeBytes n := by
  decide +kernel

/-- **A character as written is one item, and stands for the character.** -/
theorem readItem_escape (c : Char) :
    ∃ d ds, escape c = d :: ds ∧ d ≠ '"' ∧
      ∀ rest, readItem d (ds ++ rest) = some (String.utf8EncodeChar c, rest) := by
  unfold escape
  split
  · next h => exact ⟨'\\', _, rfl, by decide, fun rest => by rw [h]; rfl⟩
  split
  · next h => exact ⟨'\\', _, rfl, by decide, fun rest => by rw [h]; rfl⟩
  split
  · next h => exact ⟨'\\', _, rfl, by decide, fun rest => by rw [h]; rfl⟩
  split
  · next h => exact ⟨'\\', _, rfl, by decide, fun rest => by rw [h]; rfl⟩
  split
  · next h => exact ⟨'\\', _, rfl, by decide, fun rest => by rw [h]; rfl⟩
  next hbackslash hquote hfeed hreturn _ =>
  split
  · next hcontrol =>
    split
    · next hascii =>
      obtain ⟨hlength, hdigit, hvalue, hbytes⟩ := decimalEscape_digits c.toNat hascii
      refine ⟨'\\', _, rfl, by decide, fun rest => ?_⟩
      rw [readItem, if_pos rfl, readEscape_digits hlength hdigit (by omega), hvalue, ← hbytes,
        Char.ofNat_toNat]
    · next hascii =>
      simp only [isControl, Bool.or_eq_true, Bool.and_eq_true, decide_eq_true_eq] at hcontrol
      refine ⟨'\\', _, rfl, by decide, fun rest => ?_⟩
      have hbytes := codeBytes_control c.toNat (by omega) (by omega)
      rw [Char.ofNat_toNat] at hbytes
      rw [readItem, if_pos rfl, hbytes]
      exact readEscape_hex (by omega) rest
  · refine ⟨c, [], rfl, hquote, fun rest => ?_⟩
    rw [readItem, if_neg hbackslash, if_neg (not_or.mpr ⟨hfeed, hreturn⟩)]
    rfl

/-- **What is written between the quotes is read back,** up to the closing quote. -/
theorem readBody_escaped (cs rest : List Char) :
    readBody (cs.flatMap escape ++ '"' :: rest) = some (cs.flatMap String.utf8EncodeChar, rest) := by
  induction cs with
  | nil => exact readBody_quote rest
  | cons c cs ih =>
    obtain ⟨d, ds, hescape, hd, hitem⟩ := readItem_escape c
    rw [List.flatMap_cons, hescape, List.append_assoc, List.cons_append, readBody_item hd (hitem _), ih,
      List.flatMap_cons]
    rfl

/-! ### Strings -/

/-- The value of the double-quoted string that a text starts with, and the text after it. -/
def readQuoted : List Char → Option (List UInt8 × List Char)
  | '"' :: cs => readBody cs
  | _ => none

/-- The bytes of a string are its own. -/
theorem toByteArray_bytes (s : String) : (bytes s).toByteArray = s.toByteArray := by
  have hencode : (String.ofList s.toList).toByteArray = (bytes s).toByteArray := String.toByteArray_ofList
  rw [← hencode, String.ofList_toList]

theorem fromUTF8?_bytes (s : String) : String.fromUTF8? (bytes s).toByteArray = some s := by
  have hvalid : (bytes s).toByteArray.IsValidUTF8 := by
    rw [toByteArray_bytes]
    exact s.isValidUTF8
  rw [String.fromUTF8?, dif_pos hvalid]
  exact congrArg some (String.toByteArray_inj.mp (toByteArray_bytes s))

/-- **Lua reads a quoted string as the string it stands for,** whatever text follows: reading takes what
`quoted` wrote and nothing more, and its value is the string in UTF-8. -/
theorem readQuoted_quoted (s : String) (rest : List Char) :
    ∃ value, readQuoted (quoted s ++ rest) = some (value, rest) ∧
      String.fromUTF8? value.toByteArray = some s := by
  refine ⟨bytes s, ?_, fromUTF8?_bytes s⟩
  have htext : quoted s ++ rest = '"' :: (s.toList.flatMap escape ++ '"' :: rest) := by
    rw [quoted, List.cons_append, List.append_assoc, List.singleton_append]
  rw [htext, readQuoted]
  exact readBody_escaped s.toList rest

end Gamebook.Lua
