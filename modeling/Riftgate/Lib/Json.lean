import Riftgate.Lib.Literals
import Riftgate.Lib.Text

/-!
# JSON

A value, its compact text, and a reader of such texts. The entries of an object are in order, and a key may be there
twice.
-/

namespace Lib

def isNumeralChar (c : Char) : Bool := c.isDigit || c = '-' || c = '+' || c = '.' || c = 'e' || c = 'E'

/-- The characters of a number. -/
structure Numeral where
  chars : List Char
  ne_nil : chars ≠ []
  numeral : ∀ c ∈ chars, isNumeralChar c = true

theorem Numeral.ext {a b : Numeral} (h : a.chars = b.chars) : a = b := by
  cases a
  cases b
  cases h
  rfl

inductive Json where
  | null
  | bool (b : Bool)
  | number (n : Numeral)
  | str (s : List Char)
  | arr (elems : List Json)
  | obj (entries : List (List Char × Json))

/-! ## Writing -/

/-- The control characters below the space, the quotation mark and the backslash are escaped. -/
def escapeJson (c : Char) : List Char :=
  if c = '"' then ['\\', '"']
  else if c = '\\' then ['\\', '\\']
  else if c = '\x08' then ['\\', 'b']
  else if c = '\t' then ['\\', 't']
  else if c = '\n' then ['\\', 'n']
  else if c = '\x0c' then ['\\', 'f']
  else if c = '\r' then ['\\', 'r']
  else if c.toNat < 32 then ['\\', 'u', '0', '0', (c.toNat / 16).digitChar, (c.toNat % 16).digitChar]
  else [c]

/-- A string after its first quotation mark. -/
def jsonBody (s : List Char) : List Char := s.flatMap escapeJson ++ ['"']

mutual

def Json.text : Json → List Char
  | .null => "null".toList
  | .bool b => if b then "true".toList else "false".toList
  | .number n => n.chars
  | .str s => '"' :: jsonBody s
  | .arr [] => "[]".toList
  | .arr (v :: vs) => '[' :: (v.text ++ Json.textElems vs)
  | .obj [] => "\x7b\x7d".toList
  | .obj ((k, v) :: es) => '\x7b' :: '"' :: (jsonBody k ++ ':' :: (v.text ++ Json.textEntries es))

def Json.textElems : List Json → List Char
  | [] => [']']
  | v :: vs => ',' :: (v.text ++ Json.textElems vs)

def Json.textEntries : List (List Char × Json) → List Char
  | [] => ['\x7d']
  | (k, v) :: es => ',' :: '"' :: (jsonBody k ++ ':' :: (v.text ++ Json.textEntries es))

end

/-! ## Reading -/

/-- What an escape of one letter stands for. -/
def unescape (e : Char) : Option Char := if e = '/' then some '/' else escapedChar e

/-- A string after its first quotation mark, and what comes after its last one. -/
def readString : List Char → Option (List Char × List Char)
  | '\\' :: 'u' :: a :: b :: c :: d :: rest =>
    (hexScalar [a, b, c, d]).bind fun x => (readString rest).map fun r => (x :: r.1, r.2)
  | '\\' :: e :: rest => (unescape e).bind fun x => (readString rest).map fun r => (x :: r.1, r.2)
  | '"' :: rest => some ([], rest)
  | c :: rest => if 32 ≤ c.toNat then (readString rest).map fun r => (c :: r.1, r.2) else none
  | [] => none

def readNumeral (l : List Char) : Option (Json × List Char) :=
  if h : l.takeWhile isNumeralChar = [] then none
  else some (.number ⟨l.takeWhile isNumeralChar, h, fun _ hc => List.mem_takeWhile_imp hc⟩, l.dropWhile isNumeralChar)

mutual

/-- The bracket before the first element is read as a comma. The same holds of the brace of an object. -/
def readValue : Nat → List Char → Option (Json × List Char)
  | 0, _ => none
  | _ + 1, [] => none
  | n + 1, c :: rest =>
    if c = '"' then (readString rest).map fun r => (.str r.1, r.2)
    else if c = '[' then
      match stripStart [']'] rest with
      | some rest => some (.arr [], rest)
      | none => (readElems n (',' :: rest)).map fun r => (.arr r.1, r.2)
    else if c = '\x7b' then
      match stripStart ['\x7d'] rest with
      | some rest => some (.obj [], rest)
      | none => (readEntries n (',' :: rest)).map fun r => (.obj r.1, r.2)
    else if c = 'n' then (stripStart "ull".toList rest).map fun rest => (.null, rest)
    else if c = 't' then (stripStart "rue".toList rest).map fun rest => (.bool true, rest)
    else if c = 'f' then (stripStart "alse".toList rest).map fun rest => (.bool false, rest)
    else readNumeral (c :: rest)

def readElems : Nat → List Char → Option (List Json × List Char)
  | 0, _ => none
  | _ + 1, [] => none
  | n + 1, c :: rest =>
    if c = ']' then some ([], rest)
    else if c = ',' then
      (readValue n rest).bind fun v => (readElems n v.2).map fun vs => (v.1 :: vs.1, vs.2)
    else none

def readEntries : Nat → List Char → Option (List (List Char × Json) × List Char)
  | 0, _ => none
  | _ + 1, [] => none
  | n + 1, c :: rest =>
    if c = '\x7d' then some ([], rest)
    else if c = ',' then
      (stripStart ['"'] rest).bind fun rest => (readString rest).bind fun k => (stripStart [':'] k.2).bind fun rest =>
        (readValue n rest).bind fun v => (readEntries n v.2).map fun es => ((k.1, v.1) :: es.1, es.2)
    else none

end

/-- A whole text. -/
def Json.read (l : List Char) : Option Json :=
  match readValue (2 * l.length) l with
  | some (v, []) => some v
  | _ => none

/-! ## Strings -/

theorem readString_unescaped {c : Char} (hquote : c ≠ '"') (hslash : c ≠ '\\') (hlow : 32 ≤ c.toNat)
    (rest : List Char) : readString (c :: rest) = (readString rest).map fun r => (c :: r.1, r.2) := by
  rw [readString.eq_def]
  split <;> grind

theorem readString_unescape {e x : Char} (h : unescape e = some x) (rest : List Char) :
    readString ('\\' :: e :: rest) = (readString rest).map fun r => (x :: r.1, r.2) := by
  have hu : e ≠ 'u' := by rintro rfl; cases h
  rw [readString.eq_def]
  split <;> grind

theorem readString_unicode {a b c d x : Char} (h : hexScalar [a, b, c, d] = some x) (rest : List Char) :
    readString ('\\' :: 'u' :: a :: b :: c :: d :: rest) = (readString rest).map fun r => (x :: r.1, r.2) := by
  rw [readString, h, Option.bind_some]

theorem hexScalar_control {c : Char} (h : c.toNat < 32) :
    hexScalar ['0', '0', (c.toNat / 16).digitChar, (c.toNat % 16).digitChar] = some c := by
  have hall : ∀ n < 32, hexScalar ['0', '0', (n / 16).digitChar, (n % 16).digitChar] = some (Char.ofNat n) := by decide
  rw [hall c.toNat h, Char.ofNat_toNat]

theorem readString_escapeJson (c : Char) (rest : List Char) :
    readString (escapeJson c ++ rest) = (readString rest).map fun r => (c :: r.1, r.2) := by
  unfold escapeJson
  split_ifs with hquote hslash hb ht hn hf hr hcontrol
  · rw [hquote]
    exact readString_unescape (by decide) rest
  · rw [hslash]
    exact readString_unescape (by decide) rest
  · rw [hb]
    exact readString_unescape (by decide) rest
  · rw [ht]
    exact readString_unescape (by decide) rest
  · rw [hn]
    exact readString_unescape (by decide) rest
  · rw [hf]
    exact readString_unescape (by decide) rest
  · rw [hr]
    exact readString_unescape (by decide) rest
  · exact readString_unicode (hexScalar_control hcontrol) rest
  · exact readString_unescaped hquote hslash (by omega) rest

theorem readString_jsonBody (s rest : List Char) : readString (jsonBody s ++ rest) = some (s, rest) := by
  unfold jsonBody
  induction s with
  | nil => simp [readString]
  | cons c s ih =>
    rw [List.flatMap_cons, List.append_assoc, List.append_assoc, readString_escapeJson, ← List.append_assoc, ih]
    rfl

/-! ## Values -/

/-- What comes after a value: its end is seen. -/
def Stops (rest : List Char) : Prop := ∀ c ∈ rest.head?, isNumeralChar c = false

theorem readNumeral_chars (n : Numeral) {rest : List Char} (h : Stops rest) :
    readNumeral (n.chars ++ rest) = some (.number n, rest) := by
  have htake : (n.chars ++ rest).takeWhile isNumeralChar = n.chars := by
    rw [List.takeWhile_append_of_pos n.numeral]
    cases rest with
    | nil => simp
    | cons c rest => simp [h c rfl]
  have hdrop : (n.chars ++ rest).dropWhile isNumeralChar = rest := by
    rw [List.dropWhile_append_of_pos n.numeral]
    cases rest with
    | nil => rfl
    | cons c rest => simp [h c rfl]
  unfold readNumeral
  simp only [htake, hdrop, n.ne_nil, dite_false]

theorem readValue_numeral (n : Numeral) (fuel : Nat) {rest : List Char} (h : Stops rest) :
    readValue (fuel + 1) (n.chars ++ rest) = some (.number n, rest) := by
  rw [← readNumeral_chars n h]
  obtain ⟨chars, hne, hnumeral⟩ := n
  obtain ⟨c, chars, rfl⟩ := List.exists_cons_of_ne_nil hne
  have hc := hnumeral c List.mem_cons_self
  have hother : c ≠ '"' ∧ c ≠ '[' ∧ c ≠ '\x7b' ∧ c ≠ 'n' ∧ c ≠ 't' ∧ c ≠ 'f' := by
    refine ⟨?_, ?_, ?_, ?_, ?_, ?_⟩ <;> rintro rfl <;> exact absurd hc (by decide)
  simp only [List.cons_append, readValue, hother, if_false]

theorem text_head (v : Json) : ∃ c rest, v.text = c :: rest ∧ c ≠ ']' := by
  unfold Json.text
  split
  · exact ⟨_, _, rfl, by decide⟩
  · split <;> exact ⟨_, _, rfl, by decide⟩
  · rename_i n
    obtain ⟨c, rest, hchars⟩ := List.exists_cons_of_ne_nil n.ne_nil
    refine ⟨c, rest, hchars, ?_⟩
    rintro rfl
    have hc := n.numeral ']' (by rw [hchars]; exact List.mem_cons_self)
    exact absurd hc (by decide)
  all_goals exact ⟨_, _, rfl, by decide⟩

theorem stops_textElems (vs : List Json) (rest : List Char) : Stops (Json.textElems vs ++ rest) := by
  intro c hc
  unfold Json.textElems at hc
  split at hc <;> cases hc <;> decide

theorem stops_textEntries (es : List (List Char × Json)) (rest : List Char) :
    Stops (Json.textEntries es ++ rest) := by
  intro c hc
  unfold Json.textEntries at hc
  split at hc <;> cases hc <;> decide

mutual

theorem readValue_text (v : Json) (fuel : Nat) (hfuel : 2 * v.text.length ≤ fuel) {rest : List Char}
    (hrest : Stops rest) : readValue fuel (v.text ++ rest) = some (v, rest) := by
  obtain ⟨c, tail, htext, -⟩ := text_head v
  obtain ⟨fuel, rfl⟩ : ∃ k, fuel = k + 1 := by
    rw [htext, List.length_cons] at hfuel
    exact ⟨fuel - 1, by omega⟩
  cases v with
  | null => rfl
  | bool b => cases b <;> rfl
  | number n => exact readValue_numeral n fuel hrest
  | str s =>
    simp only [Json.text, List.cons_append, readValue, if_true, readString_jsonBody, Option.map_some]
  | arr elems =>
    cases elems with
    | nil => rfl
    | cons v vs =>
      have helems := readElems_text (v :: vs) fuel (by
        simp only [Json.text, Json.textElems, List.length_cons] at hfuel ⊢
        omega) rest
      obtain ⟨d, dtail, hd, hne⟩ := text_head v
      have hbracket : stripStart [']'] (v.text ++ (Json.textElems vs ++ rest)) = none := by
        rw [hd]
        simp [stripStart, List.isPrefixOf?, Ne.symm hne]
      simp only [Json.textElems, List.cons_append, List.append_assoc] at helems
      simp [Json.text, readValue, hbracket, helems]
  | obj entries =>
    cases entries with
    | nil => rfl
    | cons e es =>
      obtain ⟨k, v⟩ := e
      have hentries := readEntries_text ((k, v) :: es) fuel (by
        simp only [Json.text, Json.textEntries, List.length_cons] at hfuel ⊢
        omega) rest
      simp only [Json.textEntries, List.cons_append, List.append_assoc] at hentries
      simp [Json.text, readValue, hentries, stripStart, List.isPrefixOf?]

theorem readElems_text (vs : List Json) (fuel : Nat) (hfuel : 2 * (Json.textElems vs).length ≤ fuel + 1)
    (rest : List Char) : readElems fuel (Json.textElems vs ++ rest) = some (vs, rest) := by
  obtain ⟨fuel, rfl⟩ : ∃ k, fuel = k + 1 := by
    refine ⟨fuel - 1, ?_⟩
    unfold Json.textElems at hfuel
    split at hfuel <;> simp only [List.length_cons] at hfuel <;> omega
  cases vs with
  | nil => rfl
  | cons v vs =>
    simp only [Json.textElems, List.length_cons, List.length_append] at hfuel
    have hv := readValue_text v fuel (by omega) (stops_textElems vs rest)
    have hvs := readElems_text vs fuel (by omega) rest
    simp [Json.textElems, readElems, hv, hvs]

theorem readEntries_text (es : List (List Char × Json)) (fuel : Nat)
    (hfuel : 2 * (Json.textEntries es).length ≤ fuel + 1) (rest : List Char) :
    readEntries fuel (Json.textEntries es ++ rest) = some (es, rest) := by
  obtain ⟨fuel, rfl⟩ : ∃ k, fuel = k + 1 := by
    refine ⟨fuel - 1, ?_⟩
    unfold Json.textEntries at hfuel
    split at hfuel <;> simp only [List.length_cons] at hfuel <;> omega
  cases es with
  | nil => rfl
  | cons e es =>
    obtain ⟨k, v⟩ := e
    simp only [Json.textEntries, List.length_cons, List.length_append] at hfuel
    have hv := readValue_text v fuel (by omega) (stops_textEntries es rest)
    have hes := readEntries_text es fuel (by omega) rest
    have hk := readString_jsonBody k (':' :: (v.text ++ (Json.textEntries es ++ rest)))
    simp [Json.textEntries, readEntries, stripStart, List.isPrefixOf?, hk, hv, hes]

end

/-- **What is written is read.** -/
theorem Json.read_text (v : Json) : Json.read v.text = some v := by
  have hend : Stops [] := by
    intro c hc
    cases hc
  have h := readValue_text v _ le_rfl hend
  rw [List.append_nil] at h
  unfold Json.read
  rw [h]

/-! ## One line -/

/-- Without the control characters below the space, so without an end of line. -/
def IsPlain (l : List Char) : Prop := ∀ c ∈ l, 32 ≤ c.toNat

theorem isPlain_cons {c : Char} {l : List Char} : IsPlain (c :: l) ↔ 32 ≤ c.toNat ∧ IsPlain l := List.forall_mem_cons

theorem isPlain_append {l l' : List Char} : IsPlain (l ++ l') ↔ IsPlain l ∧ IsPlain l' := List.forall_mem_append

theorem isPlain_of_all {l : List Char} (h : l.all (fun c => decide (32 ≤ c.toNat)) = true) : IsPlain l :=
  fun c hc => of_decide_eq_true (List.all_eq_true.mp h c hc)

theorem isPlain_pair {e : Char} (h : 32 ≤ e.toNat) : IsPlain ['\\', e] :=
  isPlain_cons.mpr ⟨by decide, isPlain_cons.mpr ⟨h, List.forall_mem_nil _⟩⟩

theorem isPlain_escapeJson (c : Char) : IsPlain (escapeJson c) := by
  unfold escapeJson
  split_ifs with hquote hslash hb ht hn hf hr hcontrol
  · exact isPlain_pair (by decide)
  · exact isPlain_pair (by decide)
  · exact isPlain_pair (by decide)
  · exact isPlain_pair (by decide)
  · exact isPlain_pair (by decide)
  · exact isPlain_pair (by decide)
  · exact isPlain_pair (by decide)
  · have hall : ∀ n < 32, 32 ≤ (n / 16).digitChar.toNat ∧ 32 ≤ (n % 16).digitChar.toNat := by decide
    obtain ⟨hhigh, hlow⟩ := hall c.toNat hcontrol
    simp only [isPlain_cons]
    exact ⟨by decide, by decide, by decide, by decide, hhigh, hlow, List.forall_mem_nil _⟩
  · exact isPlain_cons.mpr ⟨by omega, List.forall_mem_nil _⟩

theorem isPlain_jsonBody (s : List Char) : IsPlain (jsonBody s) := by
  refine isPlain_append.mpr ⟨fun c hc => ?_, isPlain_cons.mpr ⟨by decide, List.forall_mem_nil _⟩⟩
  obtain ⟨d, -, hd⟩ := List.mem_flatMap.mp hc
  exact isPlain_escapeJson d c hd

theorem isPlain_numeral (n : Numeral) : IsPlain n.chars := by
  intro c hc
  have hnumeral := n.numeral c hc
  by_contra hlow
  have hall : ∀ n < 32, isNumeralChar (Char.ofNat n) = false := by decide
  have hfalse := hall c.toNat (by omega)
  rw [Char.ofNat_toNat, hnumeral] at hfalse
  cases hfalse

mutual

theorem isPlain_text (v : Json) : IsPlain v.text := by
  cases v with
  | null => exact isPlain_of_all rfl
  | bool b => cases b <;> exact isPlain_of_all rfl
  | number n => exact isPlain_numeral n
  | str s => exact isPlain_cons.mpr ⟨by decide, isPlain_jsonBody s⟩
  | arr elems =>
    cases elems with
    | nil => exact isPlain_of_all rfl
    | cons v vs => exact isPlain_cons.mpr ⟨by decide, isPlain_append.mpr ⟨isPlain_text v, isPlain_textElems vs⟩⟩
  | obj entries =>
    cases entries with
    | nil => exact isPlain_of_all rfl
    | cons e es =>
      obtain ⟨k, v⟩ := e
      have hv := isPlain_text v
      have hes := isPlain_textEntries es
      simp only [Json.text, isPlain_cons, isPlain_append]
      exact ⟨by decide, by decide, isPlain_jsonBody k, by decide, hv, hes⟩

theorem isPlain_textElems (vs : List Json) : IsPlain (Json.textElems vs) := by
  cases vs with
  | nil => exact isPlain_of_all rfl
  | cons v vs => exact isPlain_cons.mpr ⟨by decide, isPlain_append.mpr ⟨isPlain_text v, isPlain_textElems vs⟩⟩

theorem isPlain_textEntries (es : List (List Char × Json)) : IsPlain (Json.textEntries es) := by
  cases es with
  | nil => exact isPlain_of_all rfl
  | cons e es =>
    obtain ⟨k, v⟩ := e
    have hv := isPlain_text v
    have hes := isPlain_textEntries es
    simp only [Json.textEntries, isPlain_cons, isPlain_append]
    exact ⟨by decide, by decide, isPlain_jsonBody k, by decide, hv, hes⟩

end

end Lib
