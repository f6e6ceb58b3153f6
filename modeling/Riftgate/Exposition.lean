import Riftgate.Code.Dcgm

/-!
# Lines of the Prometheus text format, and what the DCGM reader makes of them

A label value may hold anything. The format escapes a backslash, a quote and a line feed. The reader undoes no escape,
cuts at every comma, and looks for the separator by counting braces.
-/

open Lib

namespace Riftgate.Dcgm

/-! ## The format -/

def isNameChar (c : Char) : Bool := c.isAlphanum || c = '_' || c = ':'

def IsMetricName (name : List Char) : Prop :=
  name ≠ [] ∧ (∀ c ∈ name, isNameChar c) ∧ ∀ c ∈ name.head?, c.isDigit = false

instance (name : List Char) : Decidable (IsMetricName name) :=
  decidable_of_iff (name ≠ [] ∧ name.all isNameChar ∧ name.head?.all fun c => !c.isDigit) (by
    simp only [IsMetricName, List.all_eq_true, Option.all_eq_true, Option.mem_def, Bool.not_eq_true'])

/-- A label name has no colon. -/
def IsLabelName (name : List Char) : Prop := IsMetricName name ∧ ':' ∉ name

instance (name : List Char) : Decidable (IsLabelName name) := inferInstanceAs (Decidable (_ ∧ _))

def escapeChar (c : Char) : List Char :=
  if c = '\\' then ['\\', '\\']
  else if c = '"' then ['\\', '"']
  else if c = '\n' then ['\\', 'n']
  else [c]

def escape (value : List Char) : List Char := value.flatMap escapeChar

abbrev Label := List Char × List Char

def pairText (l : Label) : List Char := l.1 ++ '=' :: '"' :: (escape l.2 ++ ['"'])

def labelsText : List Label → List Char
  | [] => []
  | [l] => pairText l
  | l :: ls => pairText l ++ ',' :: labelsText ls

def metricText (name : List Char) (labels : List Label) : List Char :=
  if labels = [] then name else name ++ '\x7b' :: (labelsText labels ++ ['\x7d'])

def render (name : List Char) (labels : List Label) (token : List Char) : List Char :=
  metricText name labels ++ ' ' :: token

def labelMap (labels : List Label) : List Char → Option (List Char) := fun key => labels.lookup key

/-! ## Characters -/

theorem isNameChar_ascii {c : Char} (h : isNameChar c) : c.toNat < 128 := by
  simp only [isNameChar, Bool.or_eq_true, decide_eq_true_eq] at h
  rcases h with (h | rfl) | rfl
  · have hcases : (decide ('A' ≤ c ∧ c ≤ 'Z') || (decide ('a' ≤ c) && decide (c ≤ 'z')) ||
        (decide ('0' ≤ c) && decide (c ≤ '9'))) = true := h
    simp only [Bool.or_eq_true, Bool.and_eq_true, decide_eq_true_eq, Char.le_def, UInt32.le_iff_toNat_le,
      Char.toNat_val] at hcases
    have hletter : 'Z'.toNat < 128 ∧ 'z'.toNat < 128 ∧ '9'.toNat < 128 := by decide
    omega
  · decide
  · decide

/-- What means something to the format or to its reader. -/
def signs : List Char := ['\x7b', '\x7d', ' ', '\t', '#', ',', '=', '"', '\n', '\\']

theorem isNameChar_plain {c : Char} (h : isNameChar c) :
    isWhiteSpace c = false ∧ c ∉ signs := by
  refine ascii_cases (p := fun c => isNameChar c = true → isWhiteSpace c = false ∧
    c ∉ signs) ?_ (isNameChar_ascii h) h
  decide

theorem notMem_name {name : List Char} (h : ∀ c ∈ name, isNameChar c) {c : Char}
    (hc : c ∈ signs) : c ∉ name :=
  fun hmem => (isNameChar_plain (h c hmem)).2 hc

/-- What the format escapes. -/
def special : List Char := ['\\', '"', '\n']

theorem escapeChar_cases (c : Char) :
    (c ∉ special ∧ escapeChar c = [c]) ∨
      (c ∈ special ∧ ∃ e ∈ ['\\', '"', 'n'], escapeChar c = ['\\', e] ∧ (c = '\\' → e = '\\')) := by
  unfold special escapeChar
  by_cases hslash : c = '\\'
  · exact Or.inr ⟨by simp [hslash], '\\', by simp, by simp [hslash], fun _ => rfl⟩
  · by_cases hquote : c = '"'
    · exact Or.inr ⟨by simp [hquote], '"', by simp, by simp [hquote], fun h => absurd h hslash⟩
    · by_cases hline : c = '\n'
      · exact Or.inr ⟨by simp [hline], 'n', by simp, by simp [hline], fun h => absurd h hslash⟩
      · exact Or.inl ⟨by simp [hslash, hquote, hline], by simp [hslash, hquote, hline]⟩

theorem escape_cons (c : Char) (value : List Char) : escape (c :: value) = escapeChar c ++ escape value :=
  List.flatMap_cons ..

/-! ## The search for the separator -/

def IsBlank (c : Char) : Prop := c = ' ' ∨ c = '\t'

/-- The depth of braces behind a text in which the search does not stop. -/
def depthAfter : Nat → List Char → Option Nat
  | depth, [] => some depth
  | depth, c :: l =>
    if c = '\x7b' then depthAfter (depth + 1) l
    else if c = '\x7d' then depthAfter (depth - 1) l
    else if (c = ' ' ∨ c = '\t') ∧ depth = 0 then none
    else depthAfter depth l

/-- The depth behind one character, unless the search stops there. -/
def depthStep (d : Nat) (c : Char) : Option Nat :=
  if c = '\x7b' then some (d + 1)
  else if c = '\x7d' then some (d - 1)
  else if (c = ' ' ∨ c = '\t') ∧ d = 0 then none
  else some d

theorem depthAfter_cons (d : Nat) (c : Char) (l : List Char) :
    depthAfter d (c :: l) = (depthStep d c).bind fun d' => depthAfter d' l := by
  rw [depthAfter, depthStep]
  split_ifs <;> rfl

theorem scanMetric_cons_of_some {d d' : Nat} {c : Char} (h : depthStep d c = some d') (l : List Char) :
    scanMetric d (c :: l) = (scanMetric d' l).map fun p => (c :: p.1, p.2) := by
  unfold depthStep at h
  rw [scanMetric]
  split_ifs at h ⊢ <;> cases h <;> rfl

theorem scanMetric_cons_of_none {d : Nat} {c : Char} (h : depthStep d c = none) (l : List Char) :
    IsBlank c ∧ scanMetric d (c :: l) = some ([], c :: l) := by
  unfold depthStep at h
  rw [scanMetric]
  split_ifs at h ⊢ with hopen hclose hblank
  exact ⟨hblank.1, rfl⟩

theorem scanMetric_append {d d' : Nat} {l : List Char} (h : depthAfter d l = some d') (rest : List Char) :
    scanMetric d (l ++ rest) = (scanMetric d' rest).map fun p => (l ++ p.1, p.2) := by
  induction l generalizing d with
  | nil =>
    cases h
    simp
  | cons c l ih =>
    rw [depthAfter_cons, Option.bind_eq_some_iff] at h
    obtain ⟨next, hstep, h⟩ := h
    rw [List.cons_append, scanMetric_cons_of_some hstep, ih h, Option.map_map]
    rfl

theorem scanMetric_early {d : Nat} {l : List Char} (h : depthAfter d l = none) (rest : List Char) :
    ∃ l₁ c l₂, l = l₁ ++ c :: l₂ ∧ IsBlank c ∧ scanMetric d (l ++ rest) = some (l₁, c :: (l₂ ++ rest)) := by
  induction l generalizing d with
  | nil => cases h
  | cons c l ih =>
    rw [depthAfter_cons] at h
    cases hstep : depthStep d c with
    | none =>
      obtain ⟨hblank, hscan⟩ := scanMetric_cons_of_none hstep (l ++ rest)
      exact ⟨[], c, l, rfl, hblank, hscan⟩
    | some next =>
      rw [hstep, Option.bind_some] at h
      obtain ⟨l₁, b, l₂, rfl, hb, heq⟩ := ih h
      refine ⟨c :: l₁, b, l₂, rfl, hb, ?_⟩
      rw [List.cons_append, scanMetric_cons_of_some hstep, heq]
      rfl

theorem scanMetric_eq_none {l : List Char} (h : ∀ c ∈ l, ¬ IsBlank c) (d : Nat) : scanMetric d l = none := by
  induction l generalizing d with
  | nil => rfl
  | cons c l ih =>
    rw [List.forall_mem_cons] at h
    have hblank : ¬ ((c = ' ' ∨ c = '\t') ∧ d = 0) := fun hc => h.1 hc.1
    simp only [scanMetric, ih h.2, Option.map_none, if_neg hblank, ite_self]

theorem depthAfter_append (d : Nat) (l l' : List Char) :
    depthAfter d (l ++ l') = (depthAfter d l).bind fun d' => depthAfter d' l' := by
  induction l generalizing d with
  | nil => rfl
  | cons c l ih =>
    rw [List.cons_append, depthAfter_cons, depthAfter_cons, Option.bind_assoc]
    exact Option.bind_congr fun next _ => ih next

/-- A character that the search passes over. -/
def IsNeutral (c : Char) : Prop := c ∉ ['\x7b', '\x7d', ' ', '\t']

instance (c : Char) : Decidable (IsNeutral c) := inferInstanceAs (Decidable (_ ∉ _))

theorem isNeutral_of_all {l : List Char} (hall : l.all (fun c => decide (IsNeutral c)) = true) {c : Char} (h : c ∈ l) :
    IsNeutral c := of_decide_eq_true (List.all_eq_true.mp hall c h)

theorem depthAfter_neutral {c : Char} (h : IsNeutral c) (d : Nat) (l : List Char) :
    depthAfter d (c :: l) = depthAfter d l := by
  unfold IsNeutral at h
  simp only [List.mem_cons, List.not_mem_nil, or_false, not_or] at h
  rw [depthAfter, if_neg h.1, if_neg h.2.1, if_neg fun hc => hc.1.elim h.2.2.1 h.2.2.2]

theorem depthAfter_name {name : List Char} (h : ∀ c ∈ name, isNameChar c) (d : Nat) (l : List Char) :
    depthAfter d (name ++ l) = depthAfter d l := by
  induction name with
  | nil => rfl
  | cons c name ih =>
    rw [List.forall_mem_cons] at h
    have hneutral : IsNeutral c := fun hc => (isNameChar_plain h.1).2 (List.mem_append_left _ hc)
    rw [List.cons_append, depthAfter_neutral hneutral, ih h.2]

theorem depthAfter_escape (d : Nat) (value : List Char) : depthAfter d (escape value) = depthAfter d value := by
  induction value generalizing d with
  | nil => rfl
  | cons c value ih =>
    rw [escape_cons]
    rcases escapeChar_cases c with ⟨-, heq⟩ | ⟨hc, e, he, heq, -⟩
    · rw [heq, List.singleton_append, depthAfter_cons, depthAfter_cons]
      exact Option.bind_congr fun next _ => ih next
    · have hc : IsNeutral c := isNeutral_of_all (by decide) hc
      have he : IsNeutral e := isNeutral_of_all (by decide) he
      rw [heq, List.cons_append, List.singleton_append, depthAfter_neutral (by decide), depthAfter_neutral he,
        depthAfter_neutral hc, ih]

theorem depthAfter_pairText {l : Label} (h : ∀ c ∈ l.1, isNameChar c) (d : Nat) :
    depthAfter d (pairText l) = depthAfter d l.2 := by
  unfold pairText
  rw [depthAfter_name h, depthAfter_neutral (by decide), depthAfter_neutral (by decide), depthAfter_append,
    depthAfter_escape]
  cases depthAfter d l.2 with
  | none => rfl
  | some d' => exact depthAfter_neutral (by decide) d' []

theorem depthAfter_labelsText {labels : List Label} (h : ∀ l ∈ labels, ∀ c ∈ l.1, isNameChar c) (d : Nat) :
    depthAfter d (labelsText labels) = depthAfter d (labels.flatMap Prod.snd) := by
  induction labels generalizing d with
  | nil => rfl
  | cons l labels ih =>
    rw [List.forall_mem_cons] at h
    cases labels with
    | nil => rw [labelsText, depthAfter_pairText h.1, List.flatMap_singleton]
    | cons l' labels =>
      rw [labelsText, depthAfter_append, depthAfter_pairText h.1, List.flatMap_cons, depthAfter_append]
      · refine Option.bind_congr fun d' _ => ?_
        rw [depthAfter_neutral (by decide), ih h.2]
      · exact nofun

/-! ## Escaped text -/

theorem length_le_escape (value : List Char) : value.length ≤ (escape value).length := by
  induction value with
  | nil => exact Nat.le_refl _
  | cons c value ih =>
    rw [escape_cons, List.length_append, List.length_cons]
    rcases escapeChar_cases c with ⟨-, heq⟩ | ⟨-, e, -, heq, -⟩
    · rw [heq, List.length_singleton]
      omega
    · rw [heq, List.length_cons, List.length_singleton]
      omega

theorem escape_eq_self_iff (value : List Char) : escape value = value ↔ ∀ c ∈ value, c ∉ special := by
  induction value with
  | nil => exact iff_of_true rfl (List.forall_mem_nil _)
  | cons c value ih =>
    rw [escape_cons, List.forall_mem_cons]
    rcases escapeChar_cases c with ⟨hc, heq⟩ | ⟨hc, e, -, heq, -⟩
    · rw [heq, List.singleton_append, List.cons.injEq, ih]
      simp only [hc, true_and, not_false_eq_true]
    · refine iff_of_false (fun h => ?_) fun h => h.1 hc
      have hlength := congrArg List.length h
      have hle := length_le_escape value
      simp only [heq, List.length_append, List.length_cons, List.length_nil] at hlength
      omega

/-- Before each quote stands a backslash. -/
def Guarded (l : List Char) : Prop := ∀ x y, l = x ++ '"' :: y → x.getLast? = some '\\'

theorem guarded_escape (value : List Char) : Guarded (escape value) := by
  induction value with
  | nil =>
    intro x y h
    exact absurd h (by simp [escape])
  | cons c value ih =>
    intro x y h
    rw [escape_cons] at h
    rcases escapeChar_cases c with ⟨hc, heq⟩ | ⟨-, e, -, heq, -⟩
    · rw [heq, List.singleton_append] at h
      cases x with
      | nil =>
        rw [List.nil_append, List.cons.injEq] at h
        exact absurd h.1 fun hq => hc (by simp [special, hq])
      | cons a x =>
        rw [List.cons_append, List.cons.injEq] at h
        have hlast := ih x y h.2
        rw [List.getLast?_cons, hlast]
        rfl
    · rw [heq, List.cons_append, List.singleton_append] at h
      cases x with
      | nil => exact absurd (List.cons.inj h).1 (by decide)
      | cons a x =>
        rw [List.cons_append, List.cons.injEq] at h
        cases x with
        | nil => rw [List.getLast?_singleton, h.1]
        | cons b x =>
          have hlast := ih x y (List.cons.inj h.2).2
          rw [List.getLast?_cons_cons, List.getLast?_cons, hlast]
          rfl

theorem Guarded.left {a b : List Char} (h : Guarded (a ++ b)) : Guarded a := by
  intro x y hxy
  exact h x (y ++ b) (by rw [hxy, List.append_assoc, List.cons_append])

theorem Guarded.right {a b : List Char} {c : Char} (h : Guarded (a ++ c :: b)) (hc : c ≠ '\\') : Guarded b := by
  intro x y hxy
  have hlast := h (a ++ c :: x) y (by rw [hxy, List.append_assoc, List.cons_append])
  rw [List.getLast?_append, List.getLast?_cons] at hlast
  cases hx : x.getLast? with
  | none =>
    rw [hx] at hlast
    exact absurd (Option.some.inj hlast) hc
  | some d =>
    rw [hx] at hlast
    exact hlast

theorem Guarded.head_ne {l : List Char} (h : Guarded l) : (l.dropWhile isWhiteSpace).head? ≠ some '"' := by
  intro hhead
  obtain ⟨rest, hrest⟩ := List.head?_eq_some_iff.mp hhead
  have hsplit : l = l.takeWhile isWhiteSpace ++ '"' :: rest := by
    rw [← hrest, List.takeWhile_append_dropWhile]
  have hblank := List.mem_takeWhile_imp (List.mem_of_getLast? (h _ _ hsplit))
  exact absurd hblank (by decide)

theorem escape_ne (m : Nat) (value rest : List Char) :
    List.replicate m '\\' ++ escape value ≠ value ++ '"' :: rest := by
  induction value generalizing m with
  | nil =>
    cases m with
    | zero => exact nofun
    | succ m =>
      intro h
      rw [List.replicate_succ, List.cons_append, List.nil_append] at h
      exact absurd (List.cons.inj h).1 (by decide)
  | cons c value ih =>
    intro h
    rw [escape_cons, List.cons_append] at h
    rcases escapeChar_cases c with ⟨hc, heq⟩ | ⟨-, e, -, heq, he⟩
    · rw [heq, List.singleton_append] at h
      cases m with
      | zero => exact ih 0 (List.cons.inj h).2
      | succ m =>
        rw [List.replicate_succ, List.cons_append] at h
        exact hc (by simp [special, ← (List.cons.inj h).1])
    · -- it starts with a backslash, so does the value, and the backslashes run on
      have hrun : List.replicate m '\\' ++ (escapeChar c ++ escape value) =
          '\\' :: (List.replicate m '\\' ++ e :: escape value) := by
        have hshift : List.replicate m '\\' ++ ['\\'] = '\\' :: List.replicate m '\\' := List.replicate_succ'.symm
        rw [heq, List.cons_append, List.singleton_append, List.append_cons, hshift, List.cons_append]
      rw [hrun, List.cons.injEq] at h
      rw [he h.1.symm] at h
      refine ih (m + 1) ?_
      rw [List.replicate_succ', List.append_assoc, List.singleton_append]
      exact h.2

/-! ## A pair -/

/-- What `parse_labels` makes of the text behind the equals sign. -/
def unquote (rawValue : List Char) : Option (List Char) := (stripStart ['"'] (trim rawValue)).bind (stripLast '"')

theorem parsePair_eq {name : List Char} (h : '=' ∉ name) (rawValue : List Char) :
    parsePair (name ++ '=' :: rawValue) =
      match unquote rawValue with
      | none => .error (.parse ("invalid label value: " ++ String.ofList (name ++ '=' :: rawValue)))
      | some value => .ok (trim name, value) := by
  rw [parsePair, splitOnce_append h]
  rfl

theorem stripStart_quote {l r : List Char} : stripStart ['"'] l = some r ↔ l = '"' :: r := by
  constructor
  · intro h
    cases l with
    | nil => cases h
    | cons c l =>
      unfold stripStart List.isPrefixOf? at h
      split at h
      · rename_i hc
        rw [beq_iff_eq] at hc
        cases h
        rw [hc]
      · cases h
  · rintro rfl
    exact stripStart_append ['"'] r

theorem stripLast_iff {c : Char} {l r : List Char} : stripLast c l = some r ↔ l = r ++ [c] := by
  unfold stripLast
  constructor
  · intro h
    split at h
    · rename_i hlast
      cases h
      exact (List.dropLast_append_getLast? c hlast).symm
    · cases h
  · rintro rfl
    simp

theorem unquote_quoted (l : List Char) : unquote ('"' :: (l ++ ['"'])) = some l := by
  have hblank : isWhiteSpace '"' = false := by decide
  have htrim : trim ('"' :: (l ++ ['"'])) = '"' :: (l ++ ['"']) := by
    refine trim_eq_self (fun c hc => ?_) fun c hc => ?_
    · cases hc
      exact hblank
    · rw [← List.cons_append, List.getLast?_concat] at hc
      cases hc
      exact hblank
  rw [unquote, htrim, stripStart_quote.mpr rfl, Option.bind_some, stripLast_iff.mpr rfl]

theorem unquote_open {x y : List Char} (h : unquote ('"' :: x) = some y) : ∃ rest, x = y ++ '"' :: rest := by
  have htrim : trim ('"' :: x) = '"' :: x.rdropWhile isWhiteSpace := by
    have hblank : isWhiteSpace '"' = false := by decide
    rw [trim, List.dropWhile_cons_of_neg (by simp [hblank])]
    exact rdropWhile_append (l := ['"']) rfl hblank x
  rw [unquote, htrim, stripStart_quote.mpr rfl, Option.bind_some, stripLast_iff] at h
  obtain ⟨rest, hrest⟩ := List.rdropWhile_prefix isWhiteSpace (l := x)
  exact ⟨rest, by rw [← hrest, h, List.append_assoc, List.singleton_append]⟩

theorem unquote_of_head_ne {l : List Char} (h : (l.dropWhile isWhiteSpace).head? ≠ some '"') : unquote l = none := by
  cases hstart : stripStart ['"'] (trim l) with
  | none => rw [unquote, hstart, Option.bind_none]
  | some r =>
    obtain ⟨rest, hrest⟩ := List.rdropWhile_prefix isWhiteSpace (l := l.dropWhile isWhiteSpace)
    rw [stripStart_quote, trim] at hstart
    rw [← hrest, hstart] at h
    exact absurd rfl h

theorem unquote_guarded {w : List Char} (h : Guarded w) : unquote w = none := unquote_of_head_ne h.head_ne

theorem unquote_guarded_quote {w : List Char} (h : Guarded w) : unquote (w ++ ['"']) = none := by
  have hhead := h.head_ne
  cases hdrop : w.dropWhile isWhiteSpace with
  | nil =>
    have hblank : ∀ c ∈ w, isWhiteSpace c = true := by
      intro c hc
      exact List.dropWhile_eq_nil_iff.mp hdrop c hc
    have htrim : trim (w ++ ['"']) = ['"'] := by
      rw [trim, List.dropWhile_append_of_pos hblank]
      rfl
    rw [unquote, htrim]
    rfl
  | cons c l =>
    rw [hdrop] at hhead
    refine unquote_of_head_ne ?_
    rw [List.dropWhile_append, hdrop]
    exact hhead

theorem parsePair_of_notMem {pair : List Char} (h : '=' ∉ pair) (kv : List Char × List Char) :
    parsePair pair ≠ .ok kv := by
  rw [parsePair, splitOnce_eq_none h]
  exact nofun

/-- What stands behind a comma inside of a value is no pair, be it up to the next comma or up to the end. -/
theorem parsePair_inner {b : List Char} (h : Guarded b) (kv : List Char × List Char) :
    parsePair b ≠ .ok kv ∧ parsePair (b ++ ['"']) ≠ .ok kv := by
  by_cases hmem : '=' ∈ b
  · obtain ⟨k, w, rfl, hk⟩ := List.eq_append_cons_of_mem hmem
    have hw : Guarded w := h.right (by decide)
    rw [List.append_assoc, List.cons_append, parsePair_eq hk, parsePair_eq hk, unquote_guarded hw,
      unquote_guarded_quote hw]
    exact ⟨nofun, nofun⟩
  · refine ⟨parsePair_of_notMem hmem kv, parsePair_of_notMem (fun h => ?_) kv⟩
    rcases List.mem_append.mp h with h | h
    · exact hmem h
    · exact absurd h (by decide)

theorem trim_name {name : List Char} (h : ∀ c ∈ name, isNameChar c) : trim name = name :=
  trim_eq_self (fun c hc => (isNameChar_plain (h c (List.mem_of_head? hc))).1)
    fun c hc => (isNameChar_plain (h c (List.mem_of_getLast? hc))).1

theorem parsePair_pairText {l : Label} (h : ∀ c ∈ l.1, isNameChar c) :
    parsePair (pairText l) = .ok (l.1, escape l.2) := by
  rw [pairText, parsePair_eq (notMem_name h (by decide)), unquote_quoted, trim_name h]

/-! ## All labels -/

section Labels

variable {labels : List Label}

/-- The pairs before a label, and what follows it. -/
def textBefore (labels : List Label) : List Char := labels.flatMap fun l => pairText l ++ [',']

def textAfter : List Label → List Char
  | [] => []
  | labels => ',' :: labelsText labels

theorem labelsText_cons (l : Label) (labels : List Label) :
    labelsText (l :: labels) = pairText l ++ textAfter labels := by
  cases labels with
  | nil => rw [labelsText, textAfter, List.append_nil]
  | cons l' labels => rfl

theorem labelsText_append (first : List Label) (l : Label) (rest : List Label) :
    labelsText (first ++ l :: rest) = textBefore first ++ (pairText l ++ textAfter rest) := by
  induction first with
  | nil => exact labelsText_cons l rest
  | cons l' first ih =>
    have hafter : textAfter (first ++ l :: rest) = ',' :: labelsText (first ++ l :: rest) := by
      cases first <;> rfl
    rw [List.cons_append, labelsText_cons, hafter, ih, textBefore, textBefore, List.flatMap_cons, List.append_assoc,
      List.append_assoc, List.singleton_append]

theorem notMem_pairText {l : Label} (hname : ∀ c ∈ l.1, isNameChar c) {c : Char} (hc : c ∈ signs)
    (hne : c ≠ '=' ∧ c ≠ '"') (hvalue : c ∉ escape l.2) : c ∉ pairText l := by
  unfold pairText
  simp only [List.mem_append, List.mem_cons, List.not_mem_nil, or_false, not_or]
  exact ⟨notMem_name hname hc, hne.1, hne.2, hvalue, hne.2⟩

theorem splitAll_textBefore {first : List Label} (hnames : ∀ l ∈ first, ∀ c ∈ l.1, isNameChar c)
    (hvalues : ∀ l ∈ first, ',' ∉ escape l.2) {last : List Char} (hlast : ',' ∉ last) :
    splitAll ',' (textBefore first ++ last) = first.map pairText ++ [last] := by
  induction first with
  | nil => exact splitAll_eq_singleton hlast
  | cons l first ih =>
    rw [List.forall_mem_cons] at hnames hvalues
    have hcons : textBefore (l :: first) = pairText l ++ ',' :: textBefore first := by
      rw [textBefore, List.flatMap_cons, List.append_assoc, List.singleton_append]
      rfl
    have hpair : ',' ∉ pairText l := notMem_pairText hnames.1 (by decide) (by decide) hvalues.1
    rw [hcons, List.append_assoc, List.cons_append, splitAll_append hpair, ih hnames.2 hvalues.2, List.map_cons,
      List.cons_append]

theorem exists_bad_piece {value a rest : List Char} (hcomma : ',' ∈ value) (hguarded : Guarded value)
    (closing : List Char) (hclosing : closing = [] ∨ closing = ['"']) (hrest : rest = [] ∨ ∃ r, rest = ',' :: r) :
    ∃ piece ∈ splitAll ',' (a ++ (value ++ (closing ++ rest))), ∀ kv, parsePair piece ≠ .ok kv := by
  obtain ⟨tail, front, heq, htail⟩ := List.eq_append_cons_of_mem (List.mem_reverse.mpr hcomma)
  have hvalue : value = front.reverse ++ ',' :: tail.reverse := by
    rw [← List.reverse_reverse value, heq, List.reverse_append, List.reverse_cons, List.append_assoc,
      List.singleton_append]
  have hinner : Guarded tail.reverse := by
    rw [hvalue] at hguarded
    exact hguarded.right (by decide)
  have hpiece : ',' ∉ tail.reverse ++ closing := by
    intro hmem
    rcases List.mem_append.mp hmem with hmem | hmem
    · exact htail (List.mem_reverse.mp hmem)
    · rcases hclosing with rfl | rfl
      · cases hmem
      · exact absurd hmem (by decide)
  refine ⟨tail.reverse ++ closing, ?_, fun kv => ?_⟩
  · have hmem := mem_splitAll (a ++ front.reverse) hpiece hrest
    rw [hvalue]
    simpa only [List.append_assoc, List.cons_append] using hmem
  · rcases hclosing with rfl | rfl
    · rw [List.append_nil]
      exact (parsePair_inner hinner kv).1
    · exact (parsePair_inner hinner kv).2

theorem insertPair_of_ok {parsed : List Char → Option (List Char)} {pair : List Char} {kv : List Char × List Char}
    (h : parsePair pair = .ok kv) : insertPair parsed pair = .ok (Function.update parsed kv.1 (some kv.2)) := by
  rw [insertPair, h]
  rfl

theorem ok_of_insertPair {parsed m : List Char → Option (List Char)} {pair : List Char}
    (h : insertPair parsed pair = .ok m) :
    ∃ kv, parsePair pair = .ok kv ∧ m = Function.update parsed kv.1 (some kv.2) := by
  cases hpair : parsePair pair with
  | error err =>
    rw [insertPair, hpair] at h
    cases h
  | ok kv =>
    rw [insertPair_of_ok hpair] at h
    exact ⟨kv, rfl, (Except.ok.inj h).symm⟩

theorem ok_of_pieces {pieces : List (List Char)} {parsed m : List Char → Option (List Char)}
    (h : pieces.foldlM insertPair parsed = .ok m) : ∀ p ∈ pieces, ∃ kv, parsePair p = .ok kv := by
  induction pieces generalizing parsed with
  | nil => exact List.forall_mem_nil _
  | cons p pieces ih =>
    rw [List.foldlM_cons] at h
    cases hp : insertPair parsed p with
    | error err =>
      rw [hp] at h
      cases h
    | ok parsed' =>
      rw [hp] at h
      obtain ⟨kv, hkv, -⟩ := ok_of_insertPair hp
      exact List.forall_mem_cons.mpr ⟨⟨kv, hkv⟩, ih h⟩

/-- What the reader enters for a label. -/
def addLabel (parsed : List Char → Option (List Char)) (l : Label) : List Char → Option (List Char) :=
  Function.update parsed l.1 (some (escape l.2))

theorem foldlM_pairTexts (hnames : ∀ l ∈ labels, ∀ c ∈ l.1, isNameChar c) (rest : List (List Char))
    (parsed : List Char → Option (List Char)) :
    (labels.map pairText ++ rest).foldlM insertPair parsed =
      rest.foldlM insertPair (labels.foldl addLabel parsed) := by
  induction labels generalizing parsed with
  | nil => rfl
  | cons l labels ih =>
    rw [List.forall_mem_cons] at hnames
    rw [List.map_cons, List.cons_append, List.foldlM_cons, insertPair_of_ok (parsePair_pairText hnames.1),
      List.foldl_cons, ← ih hnames.2]
    rfl

theorem lookup_of_mem (hnodup : (labels.map Prod.fst).Nodup) {l : Label} (h : l ∈ labels) :
    labels.lookup l.1 = some l.2 := by
  induction labels with
  | nil => cases h
  | cons l' labels ih =>
    rw [List.map_cons, List.nodup_cons] at hnodup
    rcases List.mem_cons.mp h with rfl | h
    · exact List.lookup_cons_self
    · have hne : l.1 ≠ l'.1 := fun heq => hnodup.1 (heq ▸ List.mem_map_of_mem h)
      rw [List.lookup_cons, beq_eq_false_iff_ne.mpr hne]
      exact ih hnodup.2 h

theorem foldl_addLabel (hnodup : (labels.map Prod.fst).Nodup) (parsed : List Char → Option (List Char))
    (key : List Char) :
    labels.foldl addLabel parsed key = ((labels.lookup key).map escape).or (parsed key) := by
  induction labels generalizing parsed with
  | nil => rfl
  | cons l labels ih =>
    rw [List.map_cons, List.nodup_cons] at hnodup
    rw [List.foldl_cons, ih hnodup.2, addLabel, List.lookup_cons]
    by_cases hkey : key = l.1
    · have hnone : labels.lookup key = none := by
        rw [List.lookup_eq_none_iff]
        intro l' hl'
        rw [hkey, bne_iff_ne]
        exact fun heq => hnodup.1 (heq ▸ List.mem_map_of_mem hl')
      rw [hnone, hkey, Function.update_self, beq_self_eq_true]
      rfl
    · rw [Function.update_of_ne hkey, beq_eq_false_iff_ne.mpr hkey]

theorem foldl_addLabel_eq_iff (hnodup : (labels.map Prod.fst).Nodup) :
    labels.foldl addLabel (fun _ => none) = labelMap labels ↔ ∀ l ∈ labels, escape l.2 = l.2 := by
  constructor
  · intro h l hl
    have hkey := congrFun h l.1
    rw [foldl_addLabel hnodup, labelMap, lookup_of_mem hnodup hl] at hkey
    exact Option.some.inj hkey
  · intro h
    funext key
    rw [foldl_addLabel hnodup, labelMap, Option.or_none]
    cases hkey : labels.lookup key with
    | none => rfl
    | some value =>
      obtain ⟨l₁, l₂, heq, -⟩ := List.lookup_eq_some_iff.mp hkey
      rw [Option.map_some, h (key, value) (by rw [heq]; simp)]

/-- No value has a comma or anything to escape. -/
def NoCutOrEscape (labels : List Label) : Prop := ∀ l ∈ labels, ',' ∉ l.2 ∧ ∀ c ∈ l.2, c ∉ special

theorem comma_mem_escape (value : List Char) : ',' ∈ escape value ↔ ',' ∈ value := by
  induction value with
  | nil => rfl
  | cons c value ih =>
    rw [escape_cons, List.mem_append, List.mem_cons, ih]
    refine or_congr_left ?_
    rcases escapeChar_cases c with ⟨-, heq⟩ | ⟨hc, e, he, heq, -⟩
    · rw [heq, List.mem_singleton]
    · rw [heq]
      refine iff_of_false (fun h => ?_) fun h => ?_
      · clear heq
        rcases List.mem_cons.mp h with h | h
        · exact absurd h (by decide)
        · rw [← List.mem_singleton.mp h] at he
          exact absurd he (by decide)
      · rw [← h] at hc
        exact absurd hc (by decide)

theorem trim_name_append_ne {name : List Char} (h : IsMetricName name) (rest : List Char) :
    trim (name ++ rest) ≠ [] := by
  obtain ⟨hne, hchars, -⟩ := h
  obtain ⟨c, name, rfl⟩ := List.exists_cons_of_ne_nil hne
  have hc : isWhiteSpace c = false := (isNameChar_plain (hchars c List.mem_cons_self)).1
  intro htrim
  rw [trim, List.rdropWhile_eq_nil_iff, List.cons_append, List.dropWhile_cons_of_neg (by simp [hc])] at htrim
  have hblank := htrim c List.mem_cons_self
  rw [hc] at hblank
  cases hblank

theorem labelsText_ne_blank (hlabels : ∀ l ∈ labels, IsLabelName l.1) (hne : labels ≠ []) :
    trim (labelsText labels) ≠ [] := by
  obtain ⟨l, rest, rfl⟩ := List.exists_cons_of_ne_nil hne
  rw [labelsText_cons, pairText, List.append_assoc]
  exact trim_name_append_ne (hlabels l List.mem_cons_self).1 _

theorem parseLabels_of_comma_notMem (hlabels : ∀ l ∈ labels, IsLabelName l.1) (hne : labels ≠ [])
    (hcomma : ∀ l ∈ labels, ',' ∉ escape l.2) :
    parseLabels (labelsText labels) = .ok (labels.foldl addLabel fun _ => none) := by
  have hnames : ∀ l ∈ labels, ∀ c ∈ l.1, isNameChar c := fun l hl => (hlabels l hl).1.2.1
  rw [parseLabels, if_neg (labelsText_ne_blank hlabels hne)]
  obtain ⟨front, l, rfl⟩ : ∃ front l, labels = front ++ [l] := (List.eq_nil_or_concat' labels).resolve_left hne
  rw [List.forall_mem_append, List.forall_mem_singleton] at hnames hcomma
  have hlast : ',' ∉ pairText l := notMem_pairText hnames.2 (by decide) (by decide) hcomma.2
  rw [labelsText_append, textAfter, List.append_nil, splitAll_textBefore hnames.1 hcomma.1 hlast,
    foldlM_pairTexts hnames.1, List.foldlM_cons, insertPair_of_ok (parsePair_pairText hnames.2), List.foldl_append]
  rfl

theorem comma_notMem_of_parseLabels {blob a value closing z : List Char} {m : List Char → Option (List Char)}
    (h : parseLabels blob = .ok m) (hblank : trim blob ≠ []) (hblob : blob = a ++ (value ++ (closing ++ z)))
    (hguarded : Guarded value) (hclosing : closing = [] ∨ closing = ['"'])
    (hrest : z = [] ∨ ∃ r, z = ',' :: r) : ',' ∉ value := by
  intro hcomma
  rw [parseLabels, if_neg hblank] at h
  obtain ⟨piece, hpiece, hbad⟩ := exists_bad_piece (a := a) hcomma hguarded closing hclosing hrest
  rw [← hblob] at hpiece
  obtain ⟨kv, hkv⟩ := ok_of_pieces h piece hpiece
  exact hbad kv hkv

theorem textAfter_cases (rest : List Label) : textAfter rest = [] ∨ ∃ r, textAfter rest = ',' :: r := by
  cases rest with
  | nil => exact Or.inl rfl
  | cons l' rest => exact Or.inr ⟨_, rfl⟩

theorem parseLabels_iff (hlabels : ∀ l ∈ labels, IsLabelName l.1) (hne : labels ≠ [])
    (hnodup : (labels.map Prod.fst).Nodup) :
    parseLabels (labelsText labels) = .ok (labelMap labels) ↔ NoCutOrEscape labels := by
  constructor
  · intro h
    have hcomma : ∀ l ∈ labels, ',' ∉ escape l.2 := by
      intro l hl
      obtain ⟨first, rest, heq⟩ := List.append_of_mem hl
      refine comma_notMem_of_parseLabels h (labelsText_ne_blank hlabels hne)
        (a := textBefore first ++ (l.1 ++ ['=', '"'])) ?_ (guarded_escape l.2) (Or.inr rfl) (textAfter_cases rest)
      rw [heq, labelsText_append, pairText]
      simp only [List.append_assoc, List.cons_append, List.nil_append]
    rw [parseLabels_of_comma_notMem hlabels hne hcomma, Except.ok.injEq, foldl_addLabel_eq_iff hnodup] at h
    intro l hl
    exact ⟨fun hmem => hcomma l hl ((comma_mem_escape l.2).mpr hmem), (escape_eq_self_iff l.2).mp (h l hl)⟩
  · intro h
    have hcomma : ∀ l ∈ labels, ',' ∉ escape l.2 := fun l hl hmem => (h l hl).1 ((comma_mem_escape l.2).mp hmem)
    rw [parseLabels_of_comma_notMem hlabels hne hcomma, Except.ok.injEq, foldl_addLabel_eq_iff hnodup]
    exact fun l hl => (escape_eq_self_iff l.2).mpr (h l hl).2

theorem skip_of_notMem {c : Char} {p r l₁ l₂ : List Char} (hp : c ∉ p) (h : p ++ r = l₁ ++ c :: l₂) :
    ∃ x, l₁ = p ++ x ∧ r = x ++ c :: l₂ := by
  rcases List.append_eq_append_iff.mp h with ⟨x, hl, hr⟩ | ⟨x, hl, hr⟩
  · exact ⟨x, hl, hr⟩
  · cases x with
    | nil => exact ⟨[], by rw [hl, List.append_nil, List.append_nil], hr.symm⟩
    | cons b x =>
      rw [List.cons_append, List.cons.injEq] at hr
      exact absurd (by rw [hl, hr.1]; exact List.mem_append_right _ List.mem_cons_self) hp

theorem cut_of_notMem {c : Char} {r q l₁ l₂ : List Char} (hq : c ∉ q) (h : r ++ q = l₁ ++ c :: l₂) :
    ∃ z, r = l₁ ++ c :: z := by
  rcases List.append_eq_append_iff.mp h with ⟨x, -, hr⟩ | ⟨x, hl, hr⟩
  · exact absurd (by rw [hr]; exact List.mem_append_right _ List.mem_cons_self) hq
  · cases x with
    | nil => exact absurd (by rw [← List.nil_append q, ← hr]; exact List.mem_cons_self) hq
    | cons b x =>
      rw [List.cons_append, List.cons.injEq] at hr
      exact ⟨x, by rw [hl, hr.1]⟩

theorem blank_mem_value (hnames : ∀ l ∈ labels, ∀ c ∈ l.1, isNameChar c) {l₁ l₂ : List Char} {c : Char}
    (hc : IsBlank c) (h : labelsText labels = l₁ ++ c :: l₂) :
    ∃ front l rest x z, labels = front ++ l :: rest ∧ escape l.2 = x ++ c :: z ∧
      l₁ = textBefore front ++ (l.1 ++ '=' :: '"' :: x) := by
  have hcomma : c ∉ [','] := by
    rcases hc with rfl | rfl <;> decide
  have hquote : c ∉ ['"'] := by
    rcases hc with rfl | rfl <;> decide
  have hequals : c ∉ ['=', '"'] := by
    rcases hc with rfl | rfl <;> decide
  have hname : c ∈ signs := by
    rcases hc with rfl | rfl <;> decide
  induction labels generalizing l₁ with
  | nil => exact absurd h (by simp [labelsText])
  | cons l labels ih =>
    rw [List.forall_mem_cons] at hnames
    by_cases hmem : ∃ z, pairText l = l₁ ++ c :: z
    · obtain ⟨z, hz⟩ := hmem
      rw [pairText] at hz
      obtain ⟨x, rfl, hx⟩ := skip_of_notMem (notMem_name hnames.1 hname) hz
      obtain ⟨y, rfl, hy⟩ := skip_of_notMem (p := ['=', '"']) hequals hx
      obtain ⟨w, hw⟩ := cut_of_notMem hquote hy
      exact ⟨[], l, labels, y, w, rfl, hw, rfl⟩
    · rw [labelsText_cons] at h
      rcases List.append_eq_append_iff.mp h with ⟨x, rfl, hx⟩ | ⟨x, hl, hx⟩
      · cases labels with
        | nil => exact absurd hx (by simp [textAfter])
        | cons l' labels =>
          obtain ⟨w, rfl, hw⟩ := skip_of_notMem (p := [',']) hcomma hx
          obtain ⟨front, lb, rest, y, z, hlabels, hvalue, rfl⟩ := ih hnames.2 hw
          refine ⟨l :: front, lb, rest, y, z, by rw [hlabels, List.cons_append], hvalue, ?_⟩
          rw [textBefore, textBefore, List.flatMap_cons]
          simp only [List.append_assoc]
      · cases x with
        | nil =>
          refine absurd ?_ hcomma
          cases labels with
          | nil => cases hx
          | cons l' labels => exact List.mem_singleton.mpr (List.cons.inj hx).1
        | cons b x =>
          rw [List.cons_append, List.cons.injEq] at hx
          exact absurd ⟨x, by rw [hl, hx.1]⟩ hmem

theorem textBefore_append (first rest : List Label) :
    textBefore (first ++ rest) = textBefore first ++ textBefore rest := List.flatMap_append

/-- The value is open when the blob ends. -/
def openPair (l : Label) (x : List Char) : List Char := l.1 ++ '=' :: '"' :: x

theorem comma_notMem_of_open {front : List Label} {l : Label} {x : List Char} {m : List Char → Option (List Char)}
    (hlabels : ∀ l ∈ front, IsLabelName l.1) (hname : IsLabelName l.1) (hx : Guarded x)
    (h : parseLabels (textBefore front ++ openPair l x) = .ok m) :
    trim (textBefore front ++ openPair l x) ≠ [] ∧ (∀ l' ∈ front, ',' ∉ escape l'.2) ∧ ',' ∉ x := by
  have hblank : trim (textBefore front ++ openPair l x) ≠ [] := by
    cases front with
    | nil => exact trim_name_append_ne hname.1 _
    | cons l' front =>
      rw [textBefore, List.flatMap_cons, pairText]
      simp only [List.append_assoc]
      exact trim_name_append_ne (hlabels l' List.mem_cons_self).1 _
  refine ⟨hblank, fun l' hl' => ?_, ?_⟩
  · obtain ⟨first, rest, rfl⟩ := List.append_of_mem hl'
    refine comma_notMem_of_parseLabels h hblank (a := textBefore first ++ (l'.1 ++ ['=', '"']))
      (z := ',' :: (textBefore rest ++ openPair l x)) ?_ (guarded_escape l'.2) (Or.inr rfl) (Or.inr ⟨_, rfl⟩)
    rw [textBefore_append]
    simp only [textBefore, List.flatMap_cons, pairText, List.append_assoc, List.cons_append, List.nil_append]
  · refine comma_notMem_of_parseLabels h hblank (a := textBefore front ++ (l.1 ++ ['=', '"'])) (z := []) ?_ hx
      (Or.inl rfl) (Or.inl rfl)
    simp only [openPair, List.append_assoc, List.cons_append, List.nil_append, List.append_nil]

theorem parseLabels_open {front : List Label} {l : Label} {x z : List Char}
    (hlabels : ∀ l ∈ front, IsLabelName l.1) (hname : IsLabelName l.1) (hx : escape l.2 = x ++ z)
    {m : List Char → Option (List Char)} (h : parseLabels (textBefore front ++ openPair l x) = .ok m) :
    m l.1 ≠ some l.2 := by
  have hguarded : Guarded x := by
    have hall := guarded_escape l.2
    rw [hx] at hall
    exact hall.left
  obtain ⟨hblank, hfront, hcomma⟩ := comma_notMem_of_open hlabels hname hguarded h
  have hnames : ∀ l ∈ front, ∀ c ∈ l.1, isNameChar c := fun l' hl' => (hlabels l' hl').1.2.1
  have hlast : ',' ∉ openPair l x := by
    simp only [openPair, List.mem_append, List.mem_cons, not_or]
    exact ⟨notMem_name hname.1.2.1 (by decide), by decide, by decide, hcomma⟩
  rw [parseLabels, if_neg hblank, splitAll_textBefore hnames hfront hlast, foldlM_pairTexts hnames,
    List.foldlM_cons] at h
  cases hpair : insertPair (front.foldl addLabel fun _ => none) (openPair l x) with
  | error err =>
    rw [hpair] at h
    cases h
  | ok m' =>
    rw [hpair] at h
    cases h
    obtain ⟨kv, hkv, rfl⟩ := ok_of_insertPair hpair
    rw [openPair, parsePair_eq (notMem_name hname.1.2.1 (by decide)), trim_name hname.1.2.1] at hkv
    cases hunquote : unquote ('"' :: x) with
    | none =>
      rw [hunquote] at hkv
      cases hkv
    | some y =>
      rw [hunquote] at hkv
      cases hkv
      obtain ⟨rest, hrest⟩ := unquote_open hunquote
      intro heq
      rw [Function.update_self, Option.some.injEq] at heq
      have hy : y = l.2 := heq
      refine escape_ne 0 l.2 (rest ++ z) ?_
      rw [List.replicate_zero, List.nil_append, hx, hrest, hy, List.append_assoc, List.cons_append]

theorem lineFeed_notMem_escape (value : List Char) : '\n' ∉ escape value := by
  intro h
  obtain ⟨c, -, hc⟩ := List.mem_flatMap.mp h
  rcases escapeChar_cases c with ⟨hplain, heq⟩ | ⟨-, e, he, heq, -⟩
  · rw [heq, List.mem_singleton] at hc
    exact hplain (by simp [special, ← hc])
  · rw [heq] at hc
    clear heq
    rcases List.mem_cons.mp hc with hc | hc
    · exact absurd hc (by decide)
    · rw [← List.mem_singleton.mp hc] at he
      exact absurd he (by decide)

theorem lineFeed_notMem_labelsText (hnames : ∀ l ∈ labels, ∀ c ∈ l.1, isNameChar c) : '\n' ∉ labelsText labels := by
  induction labels with
  | nil => exact List.not_mem_nil
  | cons l labels ih =>
    rw [List.forall_mem_cons] at hnames
    rw [labelsText_cons, List.mem_append, not_or]
    refine ⟨notMem_pairText hnames.1 (by decide) (by decide) (lineFeed_notMem_escape l.2), ?_⟩
    cases labels with
    | nil => exact List.not_mem_nil
    | cons l' labels =>
      rw [textAfter, List.mem_cons, not_or]
      · exact ⟨by decide, ih hnames.2⟩
      · exact nofun

end Labels

end Riftgate.Dcgm
