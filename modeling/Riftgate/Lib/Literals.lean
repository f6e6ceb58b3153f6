import Mathlib.Data.List.Basic
import Mathlib.Tactic.Common

/-!
# Two notations for a string

The debug form of Rust, and the basic strings of TOML 1.0. Both are quoted and have escapes, but not the same ones.
-/

namespace Lib

/-! ## The debug form -/

/-- The Unicode tables of the standard library. Of the ASCII characters, those from the space to the tilde print. -/
structure CharTables where
  graphemeExtended : Char → Bool
  printable : Char → Bool
  printable_ascii : ∀ c : Char, c.toNat < 128 → printable c = (decide (32 ≤ c.toNat) && decide (c.toNat < 127))

/-- `char::escape_unicode`. -/
def escapeUnicode (c : Char) : List Char := ['\\', 'u', '\x7b'] ++ Nat.toDigits 16 c.toNat ++ ['\x7d']

/-- `char::escape_debug_ext`, as the debug form of a `str` calls it: an apostrophe is not escaped. -/
def escapeDebug (t : CharTables) (c : Char) : List Char :=
  if c = '\x00' then ['\\', '0']
  else if c = '\t' then ['\\', 't']
  else if c = '\r' then ['\\', 'r']
  else if c = '\n' then ['\\', 'n']
  else if c = '\\' then ['\\', '\\']
  else if c = '"' then ['\\', '"']
  else if t.graphemeExtended c then escapeUnicode c
  else if t.printable c then [c]
  else escapeUnicode c

/-- `format!("\x7b:?\x7d", s)`. -/
def debugStr (t : CharTables) (s : List Char) : List Char := ['"'] ++ s.flatMap (escapeDebug t) ++ ['"']

/-! ## Basic strings -/

/-- A character that stands for itself: no quotation mark, no backslash and no control character but the tab. -/
def basicUnescaped (c : Char) : Bool :=
  decide (c = '\t') || (decide (32 ≤ c.toNat) && decide (c.toNat ≠ 127) && decide (c ≠ '"') && decide (c ≠ '\\'))

/-- The escapes of one letter. -/
def escapedChar (e : Char) : Option Char :=
  if e = 'b' then some '\x08'
  else if e = 't' then some '\t'
  else if e = 'n' then some '\n'
  else if e = 'f' then some '\x0c'
  else if e = 'r' then some '\r'
  else if e = '"' then some '"'
  else if e = '\\' then some '\\'
  else none

def hexDigitValue (c : Char) : Option Nat :=
  if '0' ≤ c ∧ c ≤ '9' then some (c.toNat - 48)
  else if 'a' ≤ c ∧ c ≤ 'f' then some (c.toNat - 87)
  else if 'A' ≤ c ∧ c ≤ 'F' then some (c.toNat - 55)
  else none

/-- The Unicode scalar value that the digits stand for. -/
def hexScalar (digits : List Char) : Option Char :=
  (digits.foldl (fun acc d => acc.bind fun n => (hexDigitValue d).map (16 * n + ·)) (some 0)).bind fun n =>
    if n.isValidChar then some (Char.ofNat n) else none

/-- The rest of a basic string after its first quotation mark, up to the second one and no further. -/
def basicBody : List Char → Option (List Char)
  | '\\' :: 'u' :: a :: b :: c :: d :: rest =>
    (hexScalar [a, b, c, d]).bind fun x => (basicBody rest).map (x :: ·)
  | '\\' :: 'U' :: a :: b :: c :: d :: e :: f :: g :: h :: rest =>
    (hexScalar [a, b, c, d, e, f, g, h]).bind fun x => (basicBody rest).map (x :: ·)
  | '\\' :: e :: rest => (escapedChar e).bind fun x => (basicBody rest).map (x :: ·)
  | '"' :: rest => if rest = [] then some [] else none
  | c :: rest => if basicUnescaped c then (basicBody rest).map (c :: ·) else none
  | [] => none

/-- The string that a literal stands for, or `none` when it is not a basic string. -/
def basicString : List Char → Option (List Char)
  | '"' :: rest => basicBody rest
  | _ => none

theorem basicBody_unescaped {c : Char} (h : basicUnescaped c = true) (rest : List Char) :
    basicBody (c :: rest) = (basicBody rest).map (c :: ·) := by
  have hquote : c ≠ '"' := by rintro rfl; exact absurd h (by decide)
  have hslash : c ≠ '\\' := by rintro rfl; exact absurd h (by decide)
  rw [basicBody.eq_def]
  split <;> grind

theorem basicBody_escaped {e x : Char} (h : escapedChar e = some x) (rest : List Char) :
    basicBody ('\\' :: e :: rest) = (basicBody rest).map (x :: ·) := by
  have hu : e ≠ 'u' ∧ e ≠ 'U' := by constructor <;> rintro rfl <;> cases h
  rw [basicBody.eq_def]
  split <;> grind

theorem basicBody_zero (rest : List Char) : basicBody ('\\' :: '0' :: rest) = none := by
  rw [basicBody.eq_def]
  split <;> grind [escapedChar]

theorem basicBody_braced (rest : List Char) : basicBody ('\\' :: 'u' :: '\x7b' :: rest) = none := by
  have hscalar : ∀ b c d, hexScalar ['\x7b', b, c, d] = none := fun b c d => rfl
  rw [basicBody.eq_def]
  split <;> grind [escapedChar]

/-! ## From one notation to the other -/

/-- A character that the debug form writes as itself, or with an escape that TOML has too. -/
def Portable (t : CharTables) (c : Char) : Prop :=
  c ≠ '\x00' ∧ (c ∈ ['\t', '\r', '\n', '\\', '"'] ∨ t.graphemeExtended c = false ∧ t.printable c = true)

instance (t : CharTables) (c : Char) : Decidable (Portable t c) := inferInstanceAs (Decidable (_ ∧ _))

theorem basicUnescaped_of_printable {t : CharTables} {c : Char} (hprint : t.printable c = true)
    (hslash : c ≠ '\\') (hquote : c ≠ '"') : basicUnescaped c = true := by
  have hrange : 32 ≤ c.toNat ∧ c.toNat ≠ 127 := by
    rcases Nat.lt_or_ge c.toNat 128 with hascii | hhigh
    · rw [t.printable_ascii c hascii, Bool.and_eq_true, decide_eq_true_eq, decide_eq_true_eq] at hprint
      omega
    · omega
  simp [basicUnescaped, hrange, hslash, hquote]

theorem escapeDebug_portable {t : CharTables} {c : Char} (h : Portable t c) (rest : List Char) :
    basicBody (escapeDebug t c ++ rest) = (basicBody rest).map (c :: ·) := by
  unfold escapeDebug
  split_ifs with h0 ht hr hn hs hq hextended hprint
  · exact absurd h0 h.1
  · rw [ht]
    exact basicBody_escaped (by decide) rest
  · rw [hr]
    exact basicBody_escaped (by decide) rest
  · rw [hn]
    exact basicBody_escaped (by decide) rest
  · rw [hs]
    exact basicBody_escaped (by decide) rest
  · rw [hq]
    exact basicBody_escaped (by decide) rest
  · simp [Portable, ht, hr, hn, hs, hq, hextended] at h
  · exact basicBody_unescaped (basicUnescaped_of_printable hprint hs hq) rest
  · simp [Portable, ht, hr, hn, hs, hq, hprint] at h

theorem escapeDebug_not_portable {t : CharTables} {c : Char} (h : ¬ Portable t c) (rest : List Char) :
    basicBody (escapeDebug t c ++ rest) = none := by
  unfold escapeDebug
  split_ifs with h0 ht hr hn hs hq hextended hprint
  · exact basicBody_zero rest
  · exact absurd ⟨h0, .inl (by simp [ht])⟩ h
  · exact absurd ⟨h0, .inl (by simp [hr])⟩ h
  · exact absurd ⟨h0, .inl (by simp [hn])⟩ h
  · exact absurd ⟨h0, .inl (by simp [hs])⟩ h
  · exact absurd ⟨h0, .inl (by simp [hq])⟩ h
  · exact basicBody_braced _
  · exact absurd ⟨h0, .inr ⟨by simpa using hextended, hprint⟩⟩ h
  · exact basicBody_braced _

/-- The debug form of a string is a basic string for it exactly when all of its characters are portable. -/
theorem basicString_debugStr_iff (t : CharTables) (s : List Char) :
    basicString (debugStr t s) = some s ↔ ∀ c ∈ s, Portable t c := by
  have hbody : basicString (debugStr t s) = basicBody (s.flatMap (escapeDebug t) ++ ['"']) := rfl
  rw [hbody]
  clear hbody
  induction s with
  | nil => exact ⟨fun _ c hc => absurd hc (by simp), fun _ => rfl⟩
  | cons c s ih =>
    rw [List.flatMap_cons, List.append_assoc, List.forall_mem_cons]
    rcases Classical.em (Portable t c) with hc | hc
    · rw [escapeDebug_portable hc]
      simp only [hc, true_and, ← ih, Option.map_eq_some_iff, List.cons.injEq, exists_eq_right]
    · rw [escapeDebug_not_portable hc]
      simp [hc]

end Lib
