import Mathlib.Data.List.DropRight
import Mathlib.Data.List.Induction

/-!
# Text, as the standard library of Rust reads it

A text is its list of characters. Trimming, the cut at a separator, lines, and numerals.
-/

namespace Lib

/-! ## Blanks -/

/-- `char::is_whitespace`: the characters with the Unicode property `White_Space`. -/
def isWhiteSpace (c : Char) : Bool :=
  (decide (9 ≤ c.toNat) && decide (c.toNat ≤ 13)) || (decide (8192 ≤ c.toNat) && decide (c.toNat ≤ 8202)) ||
    decide (c.toNat ∈ [32, 133, 160, 5760, 8232, 8233, 8239, 8287, 12288])

/-- `str::trim`. -/
def trim (l : List Char) : List Char := (l.dropWhile isWhiteSpace).rdropWhile isWhiteSpace

theorem trim_eq_self {l : List Char} (hfirst : ∀ c ∈ l.head?, isWhiteSpace c = false)
    (hlast : ∀ c ∈ l.getLast?, isWhiteSpace c = false) : trim l = l := by
  have hdrop : l.dropWhile isWhiteSpace = l := by
    cases l with
    | nil => rfl
    | cons c l => simp [hfirst c rfl]
  unfold trim
  rw [hdrop, List.rdropWhile_eq_self_iff]
  intro hne hblank
  have hlast' := hlast (l.getLast hne) (List.getLast?_eq_some_getLast hne)
  rw [hlast'] at hblank
  cases hblank

theorem rdropWhile_append {p : Char → Bool} {l : List Char} {c : Char} (hlast : l.getLast? = some c)
    (hkept : p c = false) (rest : List Char) : (l ++ rest).rdropWhile p = l ++ rest.rdropWhile p := by
  induction rest using List.reverseRecOn with
  | nil =>
    rw [List.append_nil, List.rdropWhile_nil, List.append_nil, List.rdropWhile_eq_self_iff]
    intro hne htaken
    rw [List.getLast?_eq_some_getLast hne, Option.some.injEq] at hlast
    rw [hlast, hkept] at htaken
    cases htaken
  | append_singleton rest d ih =>
    rw [← List.append_assoc, List.rdropWhile_concat, List.rdropWhile_concat, ih]
    split
    · rfl
    · rw [List.append_assoc]

/-! ## Cuts -/

/-- `str::split_once` at a character: before and after its first occurrence. -/
def splitOnce (sep : Char) : List Char → Option (List Char × List Char)
  | [] => none
  | c :: l => if c = sep then some ([], l) else (splitOnce sep l).map fun p => (c :: p.1, p.2)

theorem splitOnce_append {sep : Char} {l : List Char} (h : sep ∉ l) (rest : List Char) :
    splitOnce sep (l ++ sep :: rest) = some (l, rest) := by
  induction l with
  | nil => simp [splitOnce]
  | cons c l ih =>
    rw [List.mem_cons, not_or] at h
    simp only [List.cons_append, splitOnce, if_neg (Ne.symm h.1), ih h.2, Option.map_some]

theorem splitOnce_eq_none {sep : Char} {l : List Char} (h : sep ∉ l) : splitOnce sep l = none := by
  induction l with
  | nil => rfl
  | cons c l ih =>
    rw [List.mem_cons, not_or] at h
    rw [splitOnce, if_neg (Ne.symm h.1), ih h.2, Option.map_none]

/-- `str::split` at a character. -/
def splitAll (sep : Char) : List Char → List (List Char)
  | [] => [[]]
  | c :: l =>
    if c = sep then [] :: splitAll sep l
    else
      match splitAll sep l with
      | [] => [[c]] -- does not happen
      | piece :: pieces => (c :: piece) :: pieces

theorem splitAll_append {sep : Char} {l : List Char} (h : sep ∉ l) (rest : List Char) :
    splitAll sep (l ++ sep :: rest) = l :: splitAll sep rest := by
  induction l with
  | nil => simp [splitAll]
  | cons c l ih =>
    rw [List.mem_cons, not_or] at h
    simp only [List.cons_append, splitAll, if_neg (Ne.symm h.1), ih h.2]

theorem splitAll_eq_singleton {sep : Char} {l : List Char} (h : sep ∉ l) : splitAll sep l = [l] := by
  induction l with
  | nil => rfl
  | cons c l ih =>
    rw [List.mem_cons, not_or] at h
    simp only [splitAll, if_neg (Ne.symm h.1), ih h.2]

theorem mem_splitAll {sep : Char} (x : List Char) {piece rest : List Char} (hpiece : sep ∉ piece)
    (hrest : rest = [] ∨ ∃ r, rest = sep :: r) : piece ∈ splitAll sep (x ++ sep :: (piece ++ rest)) := by
  suffices htail : piece ∈ (splitAll sep (x ++ sep :: (piece ++ rest))).tail from List.mem_of_mem_tail htail
  induction x with
  | nil =>
    rw [List.nil_append, splitAll, if_pos rfl, List.tail_cons]
    rcases hrest with rfl | ⟨r, rfl⟩
    · rw [List.append_nil, splitAll_eq_singleton hpiece]
      exact List.mem_singleton_self piece
    · rw [splitAll_append hpiece]
      exact List.mem_cons_self
  | cons c x ih =>
    rw [List.cons_append, splitAll]
    split
    · exact List.mem_of_mem_tail ih
    · split
      · rename_i hnil
        rw [hnil] at ih
        cases ih
      · rename_i hcons
        rw [hcons] at ih
        exact ih

/-- `str::split_whitespace` and the first word of it. -/
def firstWord (l : List Char) : Option (List Char) :=
  let word := (l.dropWhile isWhiteSpace).takeWhile fun c => !isWhiteSpace c
  if word = [] then none else some word

/-- `str::strip_suffix` of a character. -/
def stripLast (c : Char) (l : List Char) : Option (List Char) := if l.getLast? = some c then some l.dropLast else none

/-- What `str::lines` takes off a line that ends with a line feed. -/
def stripCr (l : List Char) : List Char := if l.getLast? = some '\r' then l.dropLast else l

/-- `str::lines`, with the characters of the line that is not ended yet, the last one first. -/
def linesFrom (line : List Char) : List Char → List (List Char)
  | [] => if line = [] then [] else [line.reverse]
  | c :: l => if c = '\n' then stripCr line.reverse :: linesFrom [] l else linesFrom (c :: line) l

def lines (l : List Char) : List (List Char) := linesFrom [] l

theorem linesFrom_line {line : List Char} (h : '\n' ∉ line) (start after : List Char) :
    linesFrom start (line ++ '\n' :: after) = stripCr (start.reverse ++ line) :: lines after := by
  induction line generalizing start with
  | nil =>
    rw [List.nil_append, linesFrom, if_pos rfl, List.append_nil]
    rfl
  | cons c line ih =>
    rw [List.mem_cons, not_or] at h
    rw [List.cons_append, linesFrom, if_neg (Ne.symm h.1), ih h.2, List.reverse_cons, List.append_assoc,
      List.singleton_append]

theorem linesFrom_end {l : List Char} (h : '\n' ∉ l) (start : List Char) (hne : l ≠ []) :
    linesFrom start l = [start.reverse ++ l] := by
  induction l generalizing start with
  | nil => exact absurd rfl hne
  | cons c l ih =>
    rw [List.mem_cons, not_or] at h
    unfold linesFrom
    rw [if_neg (Ne.symm h.1)]
    cases l with
    | nil => simp [linesFrom]
    | cons d l =>
      rw [ih h.2 _ (by simp)]
      simp

theorem lines_line {line : List Char} (h : '\n' ∉ line) (after : List Char) :
    lines (line ++ '\n' :: after) = stripCr line :: lines after := linesFrom_line h [] after

theorem linesFrom_append (start before after : List Char) :
    linesFrom start (before ++ '\n' :: after) = linesFrom start (before ++ ['\n']) ++ lines after := by
  induction before generalizing start with
  | nil =>
    simp only [List.nil_append, linesFrom, if_true]
    rfl
  | cons c before ih =>
    simp only [List.cons_append, linesFrom, ih]
    split <;> rfl

theorem lines_append {before : List Char} (h : before = [] ∨ before.getLast? = some '\n') (after : List Char) :
    lines (before ++ after) = lines before ++ lines after := by
  rcases h with rfl | h
  · rfl
  · obtain ⟨l, rfl⟩ := List.getLast?_eq_some_iff.mp h
    rw [List.append_assoc, List.singleton_append]
    exact linesFrom_append [] l after

/-- `str::strip_prefix`. -/
def stripStart (p l : List Char) : Option (List Char) := p.isPrefixOf? l

theorem stripStart_append (p l : List Char) : stripStart p (p ++ l) = some l := by
  unfold stripStart
  induction p with
  | nil => simp [List.isPrefixOf?]
  | cons c p ih => simp [List.isPrefixOf?, ih]

theorem eq_of_stripStart {p l rest : List Char} (h : stripStart p l = some rest) : l = p ++ rest := by
  unfold stripStart at h
  induction p generalizing l with
  | nil =>
    rw [List.isPrefixOf?, Option.some.injEq] at h
    rw [h, List.nil_append]
  | cons c p ih =>
    cases l with
    | nil => cases h
    | cons d l =>
      rw [List.isPrefixOf?] at h
      split at h
      · rename_i hc
        rw [ih h, eq_of_beq hc, List.cons_append]
      · cases h

/-- `str::strip_suffix`. -/
def stripEnd (s l : List Char) : Option (List Char) := s.isSuffixOf? l

theorem stripEnd_append (l s : List Char) : stripEnd s (l ++ s) = some l := by
  have h := stripStart_append s.reverse l.reverse
  unfold stripStart at h
  rw [stripEnd, List.isSuffixOf?, List.reverse_append, h, Option.map_some, List.reverse_reverse]

/-! ## ASCII -/

theorem utf8EncodeChar_ascii {c : Char} (h : c.toNat < 128) : String.utf8EncodeChar c = [UInt8.ofNat c.toNat] := by
  unfold String.utf8EncodeChar
  exact if_pos (Nat.le_of_lt_succ h)

theorem toUTF8_ofList (l : List Char) : (String.ofList l).toUTF8.data.toList = l.flatMap String.utf8EncodeChar := by
  simp [List.utf8Encode]

theorem toUTF8_ascii {l : List Char} (h : ∀ c ∈ l, c.toNat < 128) :
    (String.ofList l).toUTF8.data.toList = l.map fun c => UInt8.ofNat c.toNat := by
  rw [toUTF8_ofList, List.flatMap_congr fun c hc => utf8EncodeChar_ascii (h c hc)]
  exact List.flatMap_pure_eq_map _ _

theorem ascii_cases {p : Char → Prop} (hall : ∀ n < 128, p (Char.ofNat n)) {c : Char} (h : c.toNat < 128) : p c := by
  have := hall c.toNat h
  rwa [Char.ofNat_toNat] at this

theorem utf8EncodeChar_ge {c : Char} {n : Nat} (hc : n ≤ c.toNat) (hn : n ≤ 128) {b : UInt8}
    (hb : b ∈ String.utf8EncodeChar c) : n ≤ b.toNat := by
  by_cases hascii : c.toNat < 128
  · rw [utf8EncodeChar_ascii hascii, List.mem_singleton] at hb
    have hbyte : c.toNat < 256 := by omega
    rw [hb, UInt8.toNat_ofNat_of_lt' hbyte]
    exact hc
  · have hval : ¬ c.val.toNat ≤ 127 := fun h => hascii (Nat.lt_succ_of_le h)
    have hofNat : ∀ m, 128 ≤ m → m < 256 → n ≤ (UInt8.ofNat m).toNat := by
      intro m hlow hhigh
      rw [UInt8.toNat_ofNat_of_lt' hhigh]
      omega
    unfold String.utf8EncodeChar at hb
    simp only [if_neg hval] at hb
    split_ifs at hb <;> simp only [List.mem_cons, List.not_mem_nil, or_false] at hb
    · rcases hb with rfl | rfl <;> exact hofNat _ (by omega) (by omega)
    · rcases hb with rfl | rfl | rfl <;> exact hofNat _ (by omega) (by omega)
    · rcases hb with rfl | rfl | rfl | rfl <;> exact hofNat _ (by omega) (by omega)

/-- `str::from_utf8`. -/
def fromUtf8 (bytes : List UInt8) : Option String := String.fromUTF8? ⟨bytes.toArray⟩

theorem fromUtf8_toUTF8 (s : String) : fromUtf8 s.toUTF8.data.toList = some s := by
  unfold fromUtf8 String.fromUTF8?
  rw [Array.toArray_toList]
  have hvalid : s.toUTF8.IsValidUTF8 := s.isValidUTF8
  rw [dif_pos hvalid]
  rfl

/-- `to_ascii_lowercase` of a byte. -/
def lowerByte (b : UInt8) : UInt8 := if 65 ≤ b ∧ b ≤ 90 then b + 32 else b

/-- `eq_ignore_ascii_case`. -/
def eqIgnoreAsciiCase (a b : List UInt8) : Bool := decide (a.map lowerByte = b.map lowerByte)

/-! ## Numerals -/

/-- The value of a digit string, or `none` for a non-digit. -/
def digitsValue (l : List Char) : Option Nat :=
  l.foldl (fun acc c => acc.bind fun v => if c.isDigit then some (10 * v + (c.toNat - 48)) else none) (some 0)

/-- `parse` of an unsigned type with the values below `bound`: an optional plus sign, then digits. -/
def parseUnsigned (bound : Nat) (l : List Char) : Option Nat :=
  let digits := if l.head? = some '+' then l.tail else l
  if digits = [] then none
  else (digitsValue digits).filter fun n => decide (n < bound)

theorem digitsValue_concat (l : List Char) (c : Char) :
    digitsValue (l ++ [c]) =
      (digitsValue l).bind fun v => if c.isDigit then some (10 * v + (c.toNat - 48)) else none := by
  simp [digitsValue, List.foldl_append]

theorem digitsValue_eq_none {l : List Char} {c : Char} (hc : c ∈ l) (hdigit : c.isDigit = false) :
    digitsValue l = none := by
  induction l using List.reverseRecOn with
  | nil => cases hc
  | append_singleton l d ih =>
    rw [digitsValue_concat]
    rcases List.mem_append.mp hc with hl | hd
    · rw [ih hl, Option.bind_none]
    · rw [List.mem_singleton] at hd
      subst hd
      cases digitsValue l <;> simp [hdigit]

theorem parseUnsigned_eq_none {bound : Nat} {l : List Char} {c : Char} (hc : c ∈ l) (hdigit : c.isDigit = false)
    (hplus : c ≠ '+') : parseUnsigned bound l = none := by
  unfold parseUnsigned
  have hmem : c ∈ if l.head? = some '+' then l.tail else l := by
    split
    · rename_i hhead
      cases l with
      | nil => cases hc
      | cons d l =>
        simp only [List.head?_cons, Option.some.injEq] at hhead
        rcases List.mem_cons.mp hc with rfl | hl
        · exact absurd hhead hplus
        · exact hl
    · exact hc
  simp only [digitsValue_eq_none hmem hdigit, Option.filter_none, ite_self]

theorem parseUnsigned_lt {bound n : Nat} {l : List Char} (h : parseUnsigned bound l = some n) : n < bound := by
  unfold parseUnsigned at h
  dsimp only at h
  generalize (if l.head? = some '+' then l.tail else l) = digits at h
  split at h
  · cases h
  · exact of_decide_eq_true (Option.filter_eq_some_iff.mp h).2

theorem digitChar_isDigit {d : Nat} (h : d < 10) : d.digitChar.isDigit = true ∧ d.digitChar.toNat - 48 = d := by
  revert h
  revert d
  decide

theorem digitsValue_toDigits (n : Nat) : digitsValue (Nat.toDigits 10 n) = some n := by
  induction n using Nat.strongRecOn with
  | _ n ih =>
    by_cases hn : n < 10
    · obtain ⟨hd, hv⟩ := digitChar_isDigit hn
      rw [Nat.toDigits_of_lt_base hn]
      simp [digitsValue, hd, hv]
    · obtain ⟨hd, hv⟩ := digitChar_isDigit (Nat.mod_lt n (by decide : 10 > 0))
      rw [Nat.toDigits_of_base_le (by decide) (by omega), digitsValue_concat, ih (n / 10) (by omega)]
      simp only [Option.bind_some, hd, if_true, hv, Option.some.injEq]
      omega

theorem parseUnsigned_toDigits {n bound : Nat} (h : n < bound) : parseUnsigned bound (Nat.toDigits 10 n) = some n := by
  have hplus : (Nat.toDigits 10 n).head? ≠ some '+' := by
    intro hhead
    have hdigit := Nat.isDigit_of_mem_toDigits (by decide) (by decide) (List.mem_of_head? hhead)
    revert hdigit
    decide
  unfold parseUnsigned
  simp only [if_neg hplus, if_neg Nat.toDigits_ne_nil, digitsValue_toDigits, Option.filter_some, decide_eq_true h,
    if_true]

/-- A numeral with zeros before it up to a width: `{:0width}`. -/
def padded (width n : Nat) : List Char :=
  List.replicate (width - (Nat.toDigits 10 n).length) '0' ++ Nat.toDigits 10 n

theorem digitsValue_zeros (k : Nat) (l : List Char) : digitsValue (List.replicate k '0' ++ l) = digitsValue l := by
  induction k with
  | zero => rfl
  | succ k ih => exact ih

theorem mem_padded {width n : Nat} {c : Char} (h : c ∈ padded width n) : c.isDigit = true := by
  rcases List.mem_append.mp h with h | h
  · rw [List.eq_of_mem_replicate h]
    rfl
  · exact Nat.isDigit_of_mem_toDigits (by decide) (by decide) h

theorem digitsValue_padded (width n : Nat) : digitsValue (padded width n) = some n := by
  rw [padded, digitsValue_zeros, digitsValue_toDigits]

theorem padded_injective (width : Nat) : Function.Injective (padded width) := by
  intro m n h
  have hvalue := congrArg digitsValue h
  rw [digitsValue_padded, digitsValue_padded, Option.some.injEq] at hvalue
  exact hvalue

theorem parseUnsigned_padded {n bound : Nat} (width : Nat) (h : n < bound) :
    parseUnsigned bound (padded width n) = some n := by
  have hplus : (padded width n).head? ≠ some '+' := by
    intro hhead
    have hdigit := mem_padded (List.mem_of_head? hhead)
    revert hdigit
    decide
  have hne : padded width n ≠ [] := List.append_ne_nil_of_right_ne_nil _ Nat.toDigits_ne_nil
  unfold parseUnsigned
  simp only [if_neg hplus, if_neg hne, digitsValue_padded, Option.filter_some, decide_eq_true h, if_true]

end Lib
