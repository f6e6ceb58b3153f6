import Mathlib.Order.WithBot
import Mathlib.Logic.Equiv.Basic
import Mathlib.Data.List.Sort

/-!
# Binary heaps in an array

The least value stands at index 0, and the children of `i` stand at `2 * i + 1` and `2 * i + 2`. The operations move
values exactly as the standard library's heap does, so the array is also its order of iteration.
-/

namespace Lib.Heap

/-! ## The order around a hole

A position outside the array holds `⊤`, so the order is a fact about functions on all positions.
-/

def parent (i : ℕ) : ℕ := (i - 1) / 2

section Order

variable {β : Type}

def swapped (f : ℕ → β) (p c : ℕ) (i : ℕ) : β := f (Equiv.swap p c i)

@[simp] theorem swapped_left (f : ℕ → β) (p c : ℕ) : swapped f p c p = f c := by
  simp [swapped]

@[simp] theorem swapped_right (f : ℕ → β) (p c : ℕ) : swapped f p c c = f p := by
  simp [swapped]

theorem swapped_other (f : ℕ → β) {p c i : ℕ} (hp : i ≠ p) (hc : i ≠ c) : swapped f p c i = f i := by
  simp [swapped, Equiv.swap_apply_of_ne_of_ne hp hc]

variable [LinearOrder β]

def OrderedOn (f : ℕ → β) : Prop := ∀ i, 0 < i → f (parent i) ≤ f i

/-- Only the value at `pos` may be too small for its parent. -/
structure UpOrder (f : ℕ → β) (pos : ℕ) : Prop where
  edges : ∀ i, 0 < i → i ≠ pos → f (parent i) ≤ f i
  around : 0 < pos → ∀ i, 0 < i → parent i = pos → f (parent pos) ≤ f i

/-- Nothing is known of the value at `pos`. -/
structure DownOrder (f : ℕ → β) (pos : ℕ) : Prop where
  edges : ∀ i, 0 < i → i ≠ pos → parent i ≠ pos → f (parent i) ≤ f i
  around : 0 < pos → ∀ i, 0 < i → parent i = pos → f (parent pos) ≤ f i

variable {f : ℕ → β} {pos : ℕ}

theorem parent_lt {i : ℕ} (h : 0 < i) : parent i < i := by
  unfold parent
  omega

theorem UpOrder.finish (h : UpOrder f pos) (hstop : 0 < pos → f (parent pos) ≤ f pos) : OrderedOn f := by
  intro i hi
  by_cases hip : i = pos
  · subst hip
    exact hstop hi
  · exact h.edges i hi hip

theorem UpOrder.move (h : UpOrder f pos) (hpos : 0 < pos) (hlt : f pos < f (parent pos)) :
    UpOrder (swapped f (parent pos) pos) (parent pos) := by
  have hlow := parent_lt hpos
  -- The values that stay below the hole were below its old parent.
  have hbelow : ∀ i, 0 < i → i ≠ pos → i ≠ parent pos →
      swapped f (parent pos) pos (parent i) ≤ swapped f (parent pos) pos i := by
    intro i hi hip hiq
    rw [swapped_other f hiq hip]
    by_cases hq : parent i = parent pos
    · rw [hq, swapped_left]
      have := h.edges i hi hip
      rw [hq] at this
      exact hlt.le.trans this
    · by_cases hp : parent i = pos
      · rw [hp, swapped_right]
        exact h.around hpos i hi hp
      · rw [swapped_other f hq hp]
        exact h.edges i hi hip
  refine ⟨fun i hi hiq => ?_, fun hq i hi hiq => ?_⟩
  · by_cases hip : i = pos
    · subst hip
      rw [swapped_left, swapped_right]
      exact hlt.le
    · exact hbelow i hi hip hiq
  · have hqq := parent_lt hq
    have hup : f (parent (parent pos)) ≤ f (parent pos) := h.edges (parent pos) hq hlow.ne
    rw [swapped_other f hqq.ne (by omega)]
    by_cases hip : i = pos
    · subst hip
      rwa [swapped_right]
    · have hi_lt := parent_lt hi
      rw [swapped_other f (by omega) hip]
      have := h.edges i hi hip
      rw [hiq] at this
      exact hup.trans this

theorem DownOrder.move (h : DownOrder f pos) {child : ℕ} (hchild : 0 < child) (hparent : parent child = pos)
    (hleast : ∀ i, 0 < i → parent i = pos → f child ≤ f i) : DownOrder (swapped f pos child) child := by
  have hlt : pos < child := hparent ▸ parent_lt hchild
  refine ⟨fun i hi hic hpc => ?_, fun _ i hi hpi => ?_⟩
  · by_cases hip : i = pos
    · subst hip
      have hi_lt := parent_lt hi
      rw [swapped_left, swapped_other f hi_lt.ne hpc]
      exact h.around hi child hchild hparent
    · rw [swapped_other f hip hic]
      by_cases hpp : parent i = pos
      · rw [hpp, swapped_left]
        exact hleast i hi hpp
      · rw [swapped_other f hpp hpc]
        exact h.edges i hi hip hpp
  · have hi_lt := parent_lt hi
    rw [hparent, swapped_left, swapped_other f (by omega) (by omega)]
    have := h.edges i hi (by omega) (by omega)
    rwa [hpi] at this

theorem DownOrder.bottom (h : DownOrder f pos) (hbottom : ∀ i, 0 < i → parent i = pos → f pos ≤ f i) :
    UpOrder f pos := by
  refine ⟨fun i hi hip => ?_, h.around⟩
  by_cases hpp : parent i = pos
  · rw [hpp]
    exact hbottom i hi hpp
  · exact h.edges i hi hip hpp

theorem OrderedOn.above (h : OrderedOn f) (k i : ℕ) : f (parent^[k] i) ≤ f i := by
  induction k generalizing i with
  | zero => exact le_rfl
  | succ k ih =>
    rw [Function.iterate_succ_apply]
    refine (ih (parent i)).trans ?_
    by_cases hi : 0 < i
    · exact h i hi
    · have h0 : i = 0 := by omega
      subst h0
      exact le_rfl

theorem exists_iterate_parent (i : ℕ) : ∃ k, parent^[k] i = 0 := by
  induction i using Nat.strongRecOn with
  | ind i ih =>
    by_cases hi : 0 < i
    · obtain ⟨k, hk⟩ := ih (parent i) (parent_lt hi)
      exact ⟨k + 1, hk⟩
    · exact ⟨0, by simpa using hi⟩

theorem OrderedOn.root (h : OrderedOn f) (i : ℕ) : f 0 ≤ f i := by
  obtain ⟨k, hk⟩ := exists_iterate_parent i
  exact hk ▸ h.above k i

end Order

/-! ## The operations -/

section Operations

variable {α : Type} [LinearOrder α]

/-- The value at `i` is at most the one at `j`. -/
def before (a : Array α) (i j : ℕ) : Bool :=
  match a[i]?, a[j]? with
  | some x, some y => x ≤ y
  | _, none => true
  | none, some _ => false

def siftUp : ℕ → Array α → ℕ → Array α
  | 0, a, _ => a
  | fuel + 1, a, pos =>
    if pos = 0 || before a (parent pos) pos then a
    else siftUp fuel (a.swapIfInBounds (parent pos) pos) (parent pos)

def push (a : Array α) (x : α) : Array α := siftUp a.size (a.push x) a.size

/-- The right child when it is at most the left one. -/
def lesserChild (a : Array α) (pos : ℕ) : ℕ :=
  if before a (2 * pos + 2) (2 * pos + 1) then 2 * pos + 2 else 2 * pos + 1

/-- All the way down, whatever the value. The second part is where it ends. -/
def siftDownToBottom : ℕ → Array α → ℕ → Array α × ℕ
  | 0, a, pos => (a, pos)
  | fuel + 1, a, pos =>
    if 2 * pos + 2 < a.size then
      siftDownToBottom fuel (a.swapIfInBounds pos (lesserChild a pos)) (lesserChild a pos)
    else if 2 * pos + 1 < a.size then (a.swapIfInBounds pos (2 * pos + 1), 2 * pos + 1)
    else (a, pos)

def pop (a : Array α) : Option (α × Array α) :=
  match a.back?, a.pop[0]? with
  | none, _ => none
  | some last, none => some (last, a.pop)
  | some last, some top =>
    let sifted := siftDownToBottom a.size (a.pop.setIfInBounds 0 last) 0
    some (top, siftUp sifted.2 sifted.1 sifted.2)

/-- Down until the value is at most both its children. -/
def siftDown : ℕ → Array α → ℕ → Array α
  | 0, a, _ => a
  | fuel + 1, a, pos =>
    if 2 * pos + 2 < a.size then
      if before a pos (lesserChild a pos) then a
      else siftDown fuel (a.swapIfInBounds pos (lesserChild a pos)) (lesserChild a pos)
    else if 2 * pos + 1 < a.size && !before a pos (2 * pos + 1) then a.swapIfInBounds pos (2 * pos + 1)
    else a

/-- The positions below `n`, from the last one. -/
def rebuildBelow : ℕ → Array α → Array α
  | 0, a => a
  | n + 1, a => rebuildBelow n (siftDown a.size a n)

def rebuild (a : Array α) : Array α := rebuildBelow (a.size / 2) a

end Operations

/-! ## The order of the array -/

section Ordered

variable {α : Type} {a : Array α}

def view (a : Array α) (i : ℕ) : WithTop α := a[i]?.elim ⊤ (↑·)

theorem view_of_get {i : ℕ} {x : α} (h : a[i]? = some x) : view a i = x := by
  simp [view, h]

theorem view_of_size {i : ℕ} (h : a.size ≤ i) : view a i = ⊤ := by
  simp [view, Array.getElem?_eq_none h]

theorem view_swapIfInBounds {p c : ℕ} (hp : p < a.size) (hc : c < a.size) :
    view (a.swapIfInBounds p c) = swapped (view a) p c := by
  funext i
  rw [Array.swapIfInBounds_def, dif_pos hp, dif_pos hc]
  simp only [view, swapped, Array.getElem?_swap, Equiv.swap_apply_def]
  by_cases hip : i = p
  · subst hip
    by_cases hic : i = c
    · subst hic
      simp [hp]
    · simp [hc, Ne.symm hic]
  · by_cases hic : i = c
    · subst hic
      simp [hp, hip]
    · simp [hip, hic, Ne.symm hip, Ne.symm hic]

variable [LinearOrder α]

theorem before_iff (a : Array α) (i j : ℕ) : before a i j = true ↔ view a i ≤ view a j := by
  unfold before view
  cases a[i]? <;> cases a[j]? <;> simp

def Ordered (a : Array α) : Prop := OrderedOn (view a)

theorem siftUp_ordered {fuel pos : ℕ} (hfuel : pos ≤ fuel) (hpos : pos < a.size) (h : UpOrder (view a) pos) :
    Ordered (siftUp fuel a pos) := by
  induction fuel generalizing a pos with
  | zero =>
    exact h.finish (by omega)
  | succ fuel ih =>
    rw [siftUp]
    split
    · rename_i hstop
      refine h.finish fun h0 => ?_
      simpa [before_iff, h0.ne'] using hstop
    · rename_i hmove
      simp only [Bool.or_eq_true, decide_eq_true_eq, not_or, before_iff, not_le] at hmove
      obtain ⟨h0, hlt⟩ := hmove
      have h0 : 0 < pos := by omega
      have hparent := parent_lt h0
      refine ih (by omega) (by simp; omega) ?_
      rw [view_swapIfInBounds (by omega) hpos]
      exact h.move h0 hlt

theorem lesserChild_eq (a : Array α) (pos : ℕ) :
    lesserChild a pos = 2 * pos + 1 ∨ lesserChild a pos = 2 * pos + 2 := by
  unfold lesserChild
  split <;> simp

theorem lesserChild_least (a : Array α) {pos i : ℕ} (hi : 0 < i) (hparent : parent i = pos) :
    view a (lesserChild a pos) ≤ view a i := by
  have hchild : i = 2 * pos + 1 ∨ i = 2 * pos + 2 := by
    unfold parent at hparent
    omega
  unfold lesserChild
  split
  · rename_i h
    rw [before_iff] at h
    rcases hchild with rfl | rfl
    · exact h
    · exact le_rfl
  · rename_i h
    rw [before_iff, not_le] at h
    rcases hchild with rfl | rfl
    · exact le_rfl
    · exact h.le

theorem bottom_of_size {pos : ℕ} (h : a.size ≤ 2 * pos + 1) {i : ℕ} (hi : 0 < i) (hparent : parent i = pos) :
    view a pos ≤ view a i := by
  have hsize : a.size ≤ i := by
    unfold parent at hparent
    omega
  rw [view_of_size hsize]
  exact le_top

theorem siftDownToBottom_order {fuel pos : ℕ} (hfuel : a.size ≤ fuel + pos) (hpos : pos < a.size)
    (h : DownOrder (view a) pos) :
    (siftDownToBottom fuel a pos).2 < (siftDownToBottom fuel a pos).1.size ∧
      UpOrder (view (siftDownToBottom fuel a pos).1) (siftDownToBottom fuel a pos).2 := by
  induction fuel generalizing a pos with
  | zero => omega
  | succ fuel ih =>
    have hparent : parent (lesserChild a pos) = pos := by
      rcases lesserChild_eq a pos with he | he <;> rw [he] <;> unfold parent <;> omega
    have hrange := lesserChild_eq a pos
    rw [siftDownToBottom]
    split
    · rename_i hboth
      refine ih (by simp; omega) (by simp; omega) ?_
      rw [view_swapIfInBounds hpos (by omega)]
      exact h.move (by omega) hparent fun i => lesserChild_least a
    · split
      · -- The only child is the last value, and nothing stands below it.
        rename_i hleft
        refine ⟨by simpa using hleft, ?_⟩
        refine DownOrder.bottom ?_ fun i => bottom_of_size (by simp; omega)
        rw [view_swapIfInBounds hpos hleft]
        refine h.move (by omega) (by unfold parent; omega) fun i hi hpi => ?_
        have hchild : i = 2 * pos + 1 ∨ i = 2 * pos + 2 := by
          unfold parent at hpi
          omega
        rcases hchild with rfl | rfl
        · exact le_rfl
        · rw [view_of_size (i := 2 * pos + 2) (by omega)]
          exact le_top
      · exact ⟨hpos, h.bottom fun i => bottom_of_size (by omega)⟩

theorem siftDown_eq_self (h : Ordered a) (fuel pos : ℕ) : siftDown fuel a pos = a := by
  have hchild : ∀ i, 0 < i → parent i = pos → before a pos i = true := fun i hi hp =>
    (before_iff a pos i).mpr (hp ▸ h i hi)
  cases fuel with
  | zero => rfl
  | succ fuel =>
    rw [siftDown]
    split
    · rw [if_pos]
      rcases lesserChild_eq a pos with he | he
      · exact he ▸ hchild _ (by omega) (by unfold parent; omega)
      · exact he ▸ hchild _ (by omega) (by unfold parent; omega)
    · rw [if_neg]
      rw [hchild (2 * pos + 1) (by omega) (by unfold parent; omega)]
      simp

theorem rebuild_eq_self (h : Ordered a) : rebuild a = a := by
  have hbelow : ∀ n, rebuildBelow n a = a := by
    intro n
    induction n with
    | zero => rfl
    | succ n ih => rw [rebuildBelow, siftDown_eq_self h, ih]
  exact hbelow _

theorem ordered_of_sorted {l : List α} (h : l.Pairwise (· ≤ ·)) : Ordered l.toArray := by
  intro i hi
  by_cases hsize : l.length ≤ i
  · rw [view_of_size (i := i) (by simpa using hsize)]
    exact le_top
  · have hlt := parent_lt hi
    have hle := (List.pairwise_iff_getElem.mp h) (parent i) i (by omega) (by omega) hlt
    rw [view_of_get (i := i) (x := l[i]) (by simp), view_of_get (i := parent i) (x := l[parent i]) (by simp)]
    exact WithTop.coe_le_coe.mpr hle

theorem Ordered.head_le (h : Ordered a) {x y : α} (hx : a[0]? = some x) (hy : y ∈ a) : x ≤ y := by
  obtain ⟨i, hi, rfl⟩ := Array.mem_iff_getElem.mp hy
  have hle := h.root i
  rw [view_of_get hx, view_of_get (i := i) (x := a[i]) (by simp)] at hle
  exact WithTop.coe_le_coe.mp hle

end Ordered

/-! ## What the operations do -/

section Contents

variable {α : Type} {a : Array α}

theorem swapIfInBounds_toList_perm (a : Array α) (i j : ℕ) : (a.swapIfInBounds i j).toList.Perm a.toList := by
  rw [Array.swapIfInBounds_def]
  split
  · split
    · exact Array.perm_iff_toList_perm.mp (Array.swap_perm _ _)
    · exact .refl _
  · exact .refl _

variable [LinearOrder α]

theorem siftUp_perm (fuel : ℕ) (a : Array α) (pos : ℕ) : (siftUp fuel a pos).toList.Perm a.toList := by
  induction fuel generalizing a pos with
  | zero => exact .refl _
  | succ fuel ih =>
    rw [siftUp]
    split
    · exact .refl _
    · exact (ih _ _).trans (swapIfInBounds_toList_perm a _ _)

theorem siftDownToBottom_perm (fuel : ℕ) (a : Array α) (pos : ℕ) :
    (siftDownToBottom fuel a pos).1.toList.Perm a.toList := by
  induction fuel generalizing a pos with
  | zero => exact .refl _
  | succ fuel ih =>
    rw [siftDownToBottom]
    split
    · exact (ih _ _).trans (swapIfInBounds_toList_perm a _ _)
    · split
      · exact swapIfInBounds_toList_perm a _ _
      · exact .refl _

theorem push_perm (a : Array α) (x : α) : (push a x).toList.Perm (x :: a.toList) := by
  refine (siftUp_perm _ _ _).trans ?_
  rw [Array.toList_push]
  exact List.perm_append_singleton x a.toList

theorem push_ordered (h : Ordered a) (x : α) : Ordered (push a x) := by
  have hview : ∀ i, i ≠ a.size → view (a.push x) i = view a i := by
    intro i hi
    simp [view, Array.getElem?_push, hi]
  refine siftUp_ordered le_rfl (by simp) ⟨fun i hi hne => ?_, fun h0 i hi hp => ?_⟩
  · by_cases hp : parent i = a.size
    · have := parent_lt hi
      rw [view_of_size (i := i) (by simp; omega)]
      exact le_top
    · rw [hview i hne, hview _ hp]
      exact h i hi
  · have := parent_lt hi
    rw [view_of_size (i := i) (by simp; omega)]
    exact le_top

theorem pop_order {last : α} (h : Ordered a) : DownOrder (view (a.pop.setIfInBounds 0 last)) 0 := by
  have hview : ∀ i, i ≠ 0 → i < a.size - 1 → view (a.pop.setIfInBounds 0 last) i = view a i := by
    intro i hi hlt
    simp only [view, Array.getElem?_setIfInBounds_ne (Ne.symm hi), Array.getElem?_pop, if_pos hlt]
  refine ⟨fun i hi hne hp => ?_, fun h0 => absurd h0 (lt_irrefl 0)⟩
  by_cases hlt : i < a.size - 1
  · have := parent_lt hi
    rw [hview i hne hlt, hview _ hp (by omega)]
    exact h i hi
  · rw [view_of_size (i := i) (by simp; omega)]
    exact le_top

theorem exists_pop {x : α} (hx : a[0]? = some x) :
    ∃ b, pop a = some (x, b) ∧ a.toList.Perm (x :: b.toList) ∧ (Ordered a → Ordered b) := by
  obtain ⟨xs⟩ := a
  simp only [List.getElem?_toArray] at hx
  obtain ⟨tail, rfl⟩ : ∃ tail, xs = x :: tail := by
    cases xs with
    | nil => cases hx
    | cons y tail =>
      cases hx
      exact ⟨tail, rfl⟩
  rcases List.eq_nil_or_concat tail with rfl | ⟨rest, last, rfl⟩
  · refine ⟨#[], by simp [pop], by simp, fun _ i _ => ?_⟩
    rw [view_of_size (i := i) (by simp)]
    exact le_top
  · rw [List.concat_eq_append] at *
    have hfront : (x :: (rest ++ [last])).toArray.pop = (x :: rest).toArray := by
      rw [List.pop_toArray, ← List.cons_append, List.dropLast_concat]
    have hpopped : (x :: (rest ++ [last])).toArray.pop.setIfInBounds 0 last = (last :: rest).toArray := by
      rw [hfront]
      simp
    have hpop : pop (x :: (rest ++ [last])).toArray =
        some (x, siftUp (siftDownToBottom (rest.length + 2) (last :: rest).toArray 0).2
          (siftDownToBottom (rest.length + 2) (last :: rest).toArray 0).1
          (siftDownToBottom (rest.length + 2) (last :: rest).toArray 0).2) := by
      have hlast : (x :: (rest ++ [last])).toArray.back? = some last := by
        rw [List.back?_toArray, ← List.cons_append, List.getLast?_concat]
      have hfirst : (x :: (rest ++ [last])).toArray.pop[0]? = some x := by
        rw [hfront]
        simp
      simp only [pop, hlast, hfirst, hpopped, List.size_toArray, List.length_cons, List.length_append,
        List.length_nil, Nat.zero_add]
    refine ⟨_, hpop, ?_, fun h => ?_⟩
    · refine List.Perm.cons x ?_
      refine (List.perm_append_singleton last rest).trans ?_
      exact ((siftUp_perm _ _ _).trans (siftDownToBottom_perm _ _ _)).symm
    · have hdown : DownOrder (view (last :: rest).toArray) 0 := hpopped ▸ pop_order h
      obtain ⟨hsize, hup⟩ := @siftDownToBottom_order _ _ _ (rest.length + 2) 0 (by simp) (by simp) hdown
      exact siftUp_ordered le_rfl hsize hup

theorem pop_of_empty : pop (#[] : Array α) = none := by
  simp [pop]

/-- `while let Some(item) = heap.pop()`. -/
def popAll : ℕ → Array α → List α
  | 0, _ => []
  | fuel + 1, a =>
    match pop a with
    | none => []
    | some (x, b) => x :: popAll fuel b

theorem popAll_spec {fuel : ℕ} (hfuel : a.size ≤ fuel) (h : Ordered a) :
    (popAll fuel a).Perm a.toList ∧ (popAll fuel a).Pairwise (· ≤ ·) := by
  induction fuel generalizing a with
  | zero =>
    have hempty : a = #[] := by simpa using hfuel
    subst hempty
    simp [popAll]
  | succ fuel ih =>
    cases hx : a[0]? with
    | none =>
      have hempty : a = #[] := by simpa using hx
      subst hempty
      simp [popAll, pop_of_empty]
    | some x =>
      obtain ⟨b, hpop, hperm, hord⟩ := exists_pop hx
      have hsize : a.size = b.size + 1 := by simpa using hperm.length_eq
      obtain ⟨hrest, hsorted⟩ := ih (a := b) (by omega) (hord h)
      simp only [popAll, hpop]
      refine ⟨(hrest.cons x).trans hperm.symm, List.pairwise_cons.mpr ⟨fun y hy => ?_, hsorted⟩⟩
      refine h.head_le hx ?_
      rw [← Array.mem_toList_iff, hperm.mem_iff]
      exact List.mem_cons_of_mem x (hrest.mem_iff.mp hy)

end Contents

end Lib.Heap
