import Mathlib.Algebra.BigOperators.Group.Finset.Basic
import Mathlib.Algebra.BigOperators.Group.Finset.Piecewise
import Mathlib.Algebra.Order.BigOperators.Group.List
import Mathlib.Algebra.Order.Ring.Nat
import Mathlib.Data.Nat.Count

/-!
# The alias method in whole numbers

A slot has two outcomes and a cut. A coin below the cut gives the first outcome, another coin gives the
second. The mass of an outcome is the number of pairs of a slot and a coin that give it.

Filling the slots takes a light outcome and a heavy one, and lets the heavy one pay for the rest of the
light one's slot. The ledger says what each outcome still has to get.
-/

namespace Lib

variable {ι : Type*}

structure Slot (ι : Type*) where
  primary : ι
  other : ι
  cut : ℕ

namespace Slot

def pick (e : Slot ι) (coin : ℕ) : ι := if coin < e.cut then e.primary else e.other

def full (S : ℕ) (b : ι) : Slot ι := ⟨b, b, S⟩

variable [DecidableEq ι]

/-- How many of `S` coins give `b`. -/
def gives (S : ℕ) (e : Slot ι) (b : ι) : ℕ :=
  (if e.primary = b then e.cut else 0) + if e.other = b then S - e.cut else 0

theorem gives_full (S : ℕ) (a b : ι) : (full S a).gives S b = if a = b then S else 0 := by
  unfold gives full
  by_cases hab : a = b
  · simp [hab]
  · simp [hab]

theorem count_pick (S : ℕ) {e : Slot ι} (h : e.cut ≤ S) (b : ι) :
    Nat.count (fun coin => e.pick coin = b) S = e.gives S b := by
  have hcount : ∀ n, Nat.count (fun coin => e.pick coin = b) n =
      (if e.primary = b then min n e.cut else 0) + if e.other = b then n - e.cut else 0 := by
    intro n
    induction n with
    | zero => simp
    | succ n ih =>
      rw [Nat.count_succ, ih, pick]
      by_cases hn : n < e.cut
      · rw [if_pos hn, min_eq_left hn.le, min_eq_left (by omega : n + 1 ≤ e.cut)]
        split_ifs <;> omega
      · rw [if_neg hn, min_eq_right (by omega : e.cut ≤ n), min_eq_right (by omega : e.cut ≤ n + 1)]
        split_ifs <;> omega
  rw [hcount, min_eq_right h, gives]

theorem sum_gives {names : List ι} (hnames : names.Nodup) {S : ℕ} {e : Slot ι} (hprimary : e.primary ∈ names)
    (hother : e.other ∈ names) (hcut : e.cut ≤ S) : (names.map (e.gives S)).sum = S := by
  have hsplit : (names.map (e.gives S)).sum =
      (names.map fun b => if e.primary = b then e.cut else 0).sum +
        (names.map fun b => if e.other = b then S - e.cut else 0).sum := List.sum_map_add
  rw [hsplit, ← List.sum_toFinset _ hnames, ← List.sum_toFinset _ hnames, Finset.sum_ite_eq, Finset.sum_ite_eq,
    if_pos (List.mem_toFinset.mpr hprimary), if_pos (List.mem_toFinset.mpr hother)]
  omega

end Slot

theorem names_ne {names : List ι} (hnames : names.Nodup) {i j : ℕ} {a b : ι} (ha : names[i]? = some a)
    (hb : names[j]? = some b) (hij : i ≠ j) : a ≠ b := by
  obtain ⟨hi, rfl⟩ := List.getElem?_eq_some_iff.mp ha
  obtain ⟨hj, rfl⟩ := List.getElem?_eq_some_iff.mp hb
  exact fun heq => hij (hnames.getElem_inj_iff.mp heq)

variable [DecidableEq ι]

def mass (S : ℕ) (slots : List (Slot ι)) (b : ι) : ℕ := (slots.map fun e => e.gives S b).sum

theorem mass_set {S : ℕ} {slots : List (Slot ι)} {i : ℕ} {old : Slot ι} (h : slots[i]? = some old) (new : Slot ι)
    (b : ι) : mass S (slots.set i new) b + old.gives S b = mass S slots b + new.gives S b := by
  unfold mass
  induction slots generalizing i with
  | nil => cases h
  | cons e slots ih =>
    cases i with
    | zero =>
      cases h
      simp only [List.set_cons_zero, List.map_cons, List.sum_cons]
      omega
    | succ i =>
      have hrest := ih h
      simp only [List.set_cons_succ, List.map_cons, List.sum_cons]
      omega

section

variable {S s v : ℕ} {slots : List (Slot ι)} {bs bl : ι}

theorem mass_set_full (h : slots[s]? = some (Slot.full S bs)) (bl : ι) (v : ℕ) (b : ι) :
    mass S (slots.set s ⟨bs, bl, v⟩) b + (if bs = b then S else 0) =
      mass S slots b + ((if bs = b then v else 0) + if bl = b then S - v else 0) := by
  rw [← Slot.gives_full]
  exact mass_set h _ b

theorem mass_paid (h : slots[s]? = some (Slot.full S bs)) (hne : bs ≠ bl) :
    mass S (slots.set s ⟨bs, bl, v⟩) bs + S = mass S slots bs + v := by
  have hb := mass_set_full h bl v bs
  rwa [if_pos rfl, if_pos rfl, if_neg hne.symm, Nat.add_zero] at hb

theorem mass_payer (h : slots[s]? = some (Slot.full S bs)) (hne : bs ≠ bl) :
    mass S (slots.set s ⟨bs, bl, v⟩) bl = mass S slots bl + (S - v) := by
  have hb := mass_set_full h bl v bl
  rwa [if_neg hne, if_neg hne, if_pos rfl, Nat.add_zero, Nat.zero_add] at hb

theorem mass_unpaid (h : slots[s]? = some (Slot.full S bs)) {b : ι} (hs : bs ≠ b) (hl : bl ≠ b) :
    mass S (slots.set s ⟨bs, bl, v⟩) b = mass S slots b := by
  have hb := mass_set_full h bl v b
  rwa [if_neg hs, if_neg hs, if_neg hl] at hb

end

theorem mass_full {S : ℕ} {names : List ι} (hnames : names.Nodup) {b : ι} (h : b ∈ names) :
    mass S (names.map (Slot.full S)) b = S := by
  unfold mass
  rw [List.map_map, ← List.sum_toFinset _ hnames]
  simp only [Function.comp_apply, Slot.gives_full]
  rw [Finset.sum_ite_eq', if_pos (List.mem_toFinset.mpr h)]

theorem sum_mass {S : ℕ} {names : List ι} (hnames : names.Nodup) {slots : List (Slot ι)}
    (h : ∀ e ∈ slots, e.primary ∈ names ∧ e.other ∈ names ∧ e.cut ≤ S) :
    (names.map (mass S slots)).sum = slots.length * S := by
  induction slots with
  | nil =>
    rw [List.length_nil, Nat.zero_mul]
    apply List.sum_eq_zero
    intro x hx
    obtain ⟨b, -, rfl⟩ := List.mem_map.mp hx
    rfl
  | cons e slots ih =>
    obtain ⟨⟨hprimary, hother, hcut⟩, hslots⟩ := List.forall_mem_cons.mp h
    have hsplit : (names.map (mass S (e :: slots))).sum =
        (names.map (e.gives S)).sum + (names.map (mass S slots)).sum := by
      rw [← List.sum_map_add]
      rfl
    rw [hsplit, ih hslots, Slot.sum_gives hnames hprimary hother hcut, List.length_cons, Nat.succ_mul, Nat.add_comm]

/-! ## Shares that are rounded down -/

theorem sum_div_le (W : ℕ) (l : List ℕ) : (l.map (· / W)).sum * W ≤ l.sum := by
  induction l with
  | nil => simp
  | cons a l ih =>
    have ha := Nat.div_mul_le_self a W
    rw [List.map_cons, List.sum_cons, List.sum_cons, Nat.add_mul]
    omega

theorem sum_lt_div {W : ℕ} (hW : 0 < W) (l : List ℕ) : l.sum + l.length ≤ ((l.map (· / W)).sum + l.length) * W := by
  induction l with
  | nil => simp
  | cons a l ih =>
    have ha : a + 1 ≤ (a / W + 1) * W := Nat.succ_le_of_lt (Nat.lt_mul_of_div_lt (Nat.lt_succ_self _) hW)
    have hsplit : (a / W + (l.map (· / W)).sum + (l.length + 1)) * W =
        (a / W + 1) * W + ((l.map (· / W)).sum + l.length) * W := by
      rw [← Nat.add_mul]
      congr 1
      omega
    rw [List.map_cons, List.sum_cons, List.sum_cons, List.length_cons, hsplit]
    omega

/-! ## The ledger -/

section

variable {S lost : ℕ} {names : List ι} {share : ℕ → ℕ}

/-- The positions of `todo` are open: their slots are still full and `value` says what they may still give
away. `lost` is what rounding took from all shares together. -/
structure Ledger (S lost : ℕ) (names : List ι) (share : ℕ → ℕ) (todo : List ℕ) (value : ℕ → ℕ)
    (slots : List (Slot ι)) : Prop where
  nodup : todo.Nodup
  full : ∀ i ∈ todo, ∃ b, names[i]? = some b ∧ slots[i]? = some (Slot.full S b)
  cut : ∀ e ∈ slots, e.cut ≤ S
  open_mass : ∀ i b, names[i]? = some b → i ∈ todo → mass S slots b + value i = S + share i
  paid_mass : ∀ i b, names[i]? = some b → i ∉ todo → mass S slots b = share i
  total : (todo.map value).sum + lost = todo.length * S

namespace Ledger

variable {todo todo' : List ℕ} {value value' : ℕ → ℕ} {slots : List (Slot ι)}

theorem perm (h : Ledger S lost names share todo value slots) (hp : todo.Perm todo') :
    Ledger S lost names share todo' value slots where
  nodup := hp.nodup_iff.mp h.nodup
  full i hi := h.full i (hp.mem_iff.mpr hi)
  cut := h.cut
  open_mass i b hb hi := h.open_mass i b hb (hp.mem_iff.mpr hi)
  paid_mass i b hb hi := h.paid_mass i b hb (mt hp.mem_iff.mp hi)
  total := by rw [← (hp.map value).sum_eq, ← hp.length_eq, h.total]

theorem start (hnames : names.Nodup) (hlen : todo.Perm (List.range names.length))
    (hlost : (todo.map share).sum + lost = names.length * S) :
    Ledger S lost names share todo share (names.map (Slot.full S)) where
  nodup := hlen.nodup_iff.mpr List.nodup_range
  full i hi := by
    have hlt : i < names.length := List.mem_range.mp (hlen.mem_iff.mp hi)
    refine ⟨names[i], List.getElem?_eq_getElem hlt, ?_⟩
    rw [List.getElem?_map, List.getElem?_eq_getElem hlt, Option.map_some]
  cut e he := by
    obtain ⟨b, -, rfl⟩ := List.mem_map.mp he
    exact le_rfl
  open_mass i b hb _ := by rw [mass_full hnames (List.mem_of_getElem? hb)]
  paid_mass i b hb hi := by
    have hlt : i < names.length := (List.getElem?_eq_some_iff.mp hb).1
    exact absurd (hlen.mem_iff.mpr (List.mem_range.mpr hlt)) hi
  total := by rw [hlost, hlen.length_eq, List.length_range]

/-- The light `s` is paid, and `l` has filled its slot up. -/
theorem pay {s l : ℕ} {rest : List ℕ} (hnames : names.Nodup)
    (h : Ledger S lost names share (s :: l :: rest) value slots) {bs bl : ι} (hbs : names[s]? = some bs)
    (hbl : names[l]? = some bl) (hs : value s ≤ S) (hl : S ≤ value l) (hvl : value' l = value l + value s - S)
    (hrest : ∀ i ∈ rest, value' i = value i) :
    Ledger S lost names share (l :: rest) value' (slots.set s ⟨bs, bl, value s⟩) := by
  have hnodup := h.nodup
  simp only [List.nodup_cons, List.mem_cons, not_or] at hnodup
  obtain ⟨⟨hsl, hsrest⟩, hlrest, hrestnodup⟩ := hnodup
  have hne : bs ≠ bl := names_ne hnames hbs hbl hsl
  obtain ⟨bs', hbs', hslot⟩ := h.full s (by simp)
  obtain rfl : bs' = bs := Option.some.inj (hbs'.symm.trans hbs)
  have hsame : ∀ i b, names[i]? = some b → i ≠ s → i ≠ l →
      mass S (slots.set s ⟨bs', bl, value s⟩) b = mass S slots b := fun i b hb his hil =>
    mass_unpaid hslot (names_ne hnames hbs hb his.symm) (names_ne hnames hbl hb hil.symm)
  refine ⟨List.nodup_cons.mpr ⟨hlrest, hrestnodup⟩, ?_, ?_, ?_, ?_, ?_⟩
  · intro i hi
    have his : s ≠ i := by
      rintro rfl
      exact (List.mem_cons.mp hi).elim hsl hsrest
    rw [List.getElem?_set_ne his]
    exact h.full i (List.mem_cons_of_mem s hi)
  · intro e he
    rcases List.mem_or_eq_of_mem_set he with hold | rfl
    · exact h.cut e hold
    · exact hs
  · intro i b hb hi
    rcases List.mem_cons.mp hi with rfl | hi
    · obtain rfl : bl = b := Option.some.inj (hbl.symm.trans hb)
      have hold := h.open_mass i bl hb (by simp)
      rw [mass_payer hslot hne]
      omega
    · have his : i ≠ s := fun heq => hsrest (heq ▸ hi)
      have hil : i ≠ l := fun heq => hlrest (heq ▸ hi)
      rw [hsame i b hb his hil, hrest i hi]
      exact h.open_mass i b hb (by simp [hi])
  · intro i b hb hi
    obtain ⟨hil, hirest⟩ : i ≠ l ∧ i ∉ rest := by simpa using hi
    by_cases his : i = s
    · subst his
      obtain rfl : bs' = b := Option.some.inj (hbs.symm.trans hb)
      have hold := h.open_mass i bs' hb (by simp)
      have hpaid := mass_paid (v := value i) hslot hne
      omega
    · rw [hsame i b hb his hil]
      exact h.paid_mass i b hb (by simp [his, hil, hirest])
  · have hmap : rest.map value' = rest.map value := List.map_congr_left hrest
    have htotal := h.total
    simp only [List.map_cons, List.sum_cons, List.length_cons, hmap, Nat.add_mul] at htotal ⊢
    omega

theorem length_le (h : Ledger S lost names share todo value slots) : todo.length ≤ names.length := by
  have hsub : todo ⊆ List.range names.length := by
    intro i hi
    obtain ⟨b, hb, -⟩ := h.full i hi
    exact List.mem_range.mpr (List.getElem?_eq_some_iff.mp hb).1
  have hle := (h.nodup.subperm hsub).length_le
  rwa [List.length_range] at hle

theorem value_add_le {s l : ℕ} {rest : List ℕ} (h : Ledger S lost names share (s :: l :: rest) value slots) :
    value s + value l ≤ names.length * S := by
  have htotal := h.total
  have hlen := Nat.mul_le_mul_right S h.length_le
  rw [List.map_cons, List.map_cons, List.sum_cons, List.sum_cons] at htotal
  omega

/-- When all that is open is light, what was lost is what is missing there. When all is heavy, nothing was
lost. -/
theorem finish (h : Ledger S lost names share todo value slots)
    (hend : (∀ i ∈ todo, value i ≤ S) ∨ ∀ i ∈ todo, S ≤ value i) {i : ℕ} {b : ι} (hb : names[i]? = some b) :
    share i ≤ mass S slots b ∧ mass S slots b ≤ share i + lost := by
  by_cases hi : i ∈ todo
  · have hmass := h.open_mass i b hb hi
    have htotal := h.total
    rcases hend with hlight | hheavy
    · have hsum : (todo.map value).sum + (todo.map fun i => S - value i).sum = todo.length * S := by
        rw [← List.sum_map_add, List.map_congr_left (g := fun _ => S) fun j hj => Nat.add_sub_cancel' (hlight j hj)]
        simp
      have hle : S - value i ≤ (todo.map fun i => S - value i).sum :=
        List.le_sum_of_mem (List.mem_map_of_mem (f := fun i => S - value i) hi)
      have hlt := hlight i hi
      omega
    · have hsum : (todo.map value).sum = todo.length * S + (todo.map fun i => value i - S).sum := by
        have hconst : todo.length * S = (todo.map fun _ => S).sum := by simp
        rw [hconst, ← List.sum_map_add]
        exact congrArg List.sum (List.map_congr_left fun j hj => (Nat.add_sub_cancel' (hheavy j hj)).symm)
      have hle : value i - S ≤ (todo.map fun i => value i - S).sum :=
        List.le_sum_of_mem (List.mem_map_of_mem (f := fun i => value i - S) hi)
      have hge := hheavy i hi
      omega
  · rw [h.paid_mass i b hb hi]
    omega

end Ledger

end

end Lib
