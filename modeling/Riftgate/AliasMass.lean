import Mathlib.Algebra.BigOperators.Ring.List
import Riftgate.Lib.AliasMethod
import Riftgate.Lib.Machine
import Riftgate.Routing

/-!
# What the alias table gives each backend

The loop of `with_seed` is a machine whose states are ledgers. At its end one stack is empty. What rounding
has taken from the shares, less than 1 for each, is then with the light backends that are left over.
-/

open Lib

namespace Riftgate.Router

variable {weights : List (BackendId × UInt32)}

/-! ## Masses and shares -/

def AliasEntry.slot (e : AliasEntry) : Slot BackendId := ⟨e.primary, e.alias, e.probScaled.toNat⟩

theorem slot_injective : Function.Injective AliasEntry.slot := by
  rintro ⟨p, a, q⟩ ⟨p', a', q'⟩ h
  simp only [AliasEntry.slot, Slot.mk.injEq] at h
  obtain ⟨rfl, rfl, hq⟩ := h
  rw [UInt32.toNat_inj.mp hq]

/-- Over the slots of the table: `prob_scaled` where the backend is the primary, what is left of the scale
where it is the alias. -/
def massOf (table : List AliasEntry) (b : BackendId) : Nat := mass aliasScale.toNat (table.map AliasEntry.slot) b

def totalWeight (weights : List (BackendId × UInt32)) : Nat := (weights.map fun w => w.2.toNat).sum

/-- The backend's part of all slots, rounded down. -/
def exactShare (weights : List (BackendId × UInt32)) (w : BackendId × UInt32) : Nat :=
  weights.length * aliasScale.toNat * w.2.toNat / totalWeight weights

/-- What the assertions of `with_seed` let through. -/
structure Accepted (weights : List (BackendId × UInt32)) : Prop where
  ne : weights ≠ []
  length_le : weights.length ≤ maxWeightedBackends
  pos : ∀ w ∈ weights, 0 < w.2

namespace Accepted

variable (h : Accepted weights)

include h

theorem length_pos : 0 < weights.length := List.length_pos_iff_ne_nil.mpr h.ne

theorem totalWeight_pos : 0 < totalWeight weights := by
  obtain ⟨w, hw⟩ := List.exists_mem_of_ne_nil weights h.ne
  have hle : w.2.toNat ≤ totalWeight weights := List.le_sum_of_mem (List.mem_map_of_mem (f := fun w => w.2.toNat) hw)
  have hpos : 0 < w.2.toNat := UInt32.lt_iff_toNat_lt.mp (h.pos w hw)
  omega

theorem totalWeight_lt : totalWeight weights < 2 ^ 37 := by
  have hle : totalWeight weights ≤ (weights.map fun w => w.2.toNat).length * (2 ^ 32 - 1) := by
    apply List.sum_le_card_nsmul
    intro x hx
    obtain ⟨w, -, rfl⟩ := List.mem_map.mp hx
    have hlt := w.2.toNat_lt
    omega
  have hlen := h.length_le
  rw [List.length_map] at hle
  unfold maxWeightedBackends at hlen
  omega

theorem product_lt (w : UInt32) : w.toNat * weights.length * aliasScale.toNat < 2 ^ 61 := by
  have hlen := h.length_le
  have hw := w.toNat_lt
  have hscale : aliasScale.toNat = 2 ^ 24 := rfl
  have hprod : w.toNat * weights.length ≤ (2 ^ 32 - 1) * 32 := Nat.mul_le_mul (by omega) hlen
  rw [hscale]
  omega

theorem share_eq {i : Nat} {w : BackendId × UInt32} (hi : weights[i]? = some w) :
    ((scaleWeights weights).getD i 0).toNat = exactShare weights w := by
  have htotal : (weights.map fun w : BackendId × UInt32 => w.2.toUInt64).sum.toNat = totalWeight weights := by
    rw [toNat_sum, List.map_map, Nat.mod_eq_of_lt]
    · rfl
    · exact h.totalWeight_lt.trans (by decide)
  have hprod := h.product_lt w.2
  have hlen := h.length_le
  unfold maxWeightedBackends at hlen
  have hstep : w.2.toNat * weights.length ≤ w.2.toNat * weights.length * aliasScale.toNat :=
    Nat.le_mul_of_pos_right _ (by decide)
  have hn : (UInt64.ofNat weights.length).toNat = weights.length := by
    rw [UInt64.toNat_ofNat']
    omega
  unfold scaleWeights exactShare
  rw [List.getD_eq_getElem?_getD, List.getElem?_map, hi, Option.map_some, Option.getD_some, UInt64.toNat_div, htotal,
    UInt64.toNat_mul, UInt64.toNat_mul, UInt32.toNat_toUInt64, UInt32.toNat_toUInt64, hn,
    Nat.mod_eq_of_lt (a := w.2.toNat * weights.length) (by omega), Nat.mod_eq_of_lt (by omega)]
  congr 1
  ring

end Accepted

/-! ## The loop -/

/-- One turn of the loop, when it takes one. -/
def AliasBuild.turn (weights : List (BackendId × UInt32)) (bld : AliasBuild) : Option AliasBuild :=
  match bld.small, bld.large with
  | s :: small, l :: large =>
    let newLarge := bld.scaled.getD l 0 + bld.scaled.getD s 0 - aliasScale.toUInt64
    let table := pairSlots weights bld.table s l (bld.scaled.getD s 0).toUInt32
    let scaled := bld.scaled.set l newLarge
    some (if newLarge < aliasScale.toUInt64 then ⟨l :: small, large, scaled, table⟩
      else ⟨small, l :: large, scaled, table⟩)
  | _, _ => none

/-- The last look at the stacks takes an index from the one that is not empty. -/
def AliasBuild.popped (bld : AliasBuild) : AliasBuild := { bld with small := bld.small.tail, large := bld.large.tail }

theorem pair_succ (weights : List (BackendId × UInt32)) (fuel : Nat) (bld : AliasBuild) :
    AliasBuild.pair weights (fuel + 1) bld =
      match bld.turn weights with
      | some next => AliasBuild.pair weights fuel next
      | none => bld.popped := by
  obtain ⟨small, large, scaled, table⟩ := bld
  cases small with
  | nil => rfl
  | cons s small =>
    cases large with
    | nil => rfl
    | cons l large =>
      simp only [AliasBuild.pair, AliasBuild.turn]
      split <;> rfl

def building (weights : List (BackendId × UInt32)) : Machine AliasBuild Unit where
  init := .start weights
  step bld _ := bld.turn weights

def AliasBuild.value (bld : AliasBuild) (i : Nat) : Nat := (bld.scaled.getD i 0).toNat

theorem turn_none {bld : AliasBuild} (h : bld.turn weights = none) : bld.small = [] ∨ bld.large = [] := by
  unfold AliasBuild.turn at h
  split at h
  · cases h
  · rename_i hnot
    cases hs : bld.small with
    | nil => exact Or.inl rfl
    | cons s small =>
      cases hl : bld.large with
      | nil => exact Or.inr rfl
      | cons l large => exact absurd hl (hnot s small l large hs)

theorem turn_some {bld bld' : AliasBuild} (h : bld.turn weights = some bld') :
    ∃ s small l large, bld.small = s :: small ∧ bld.large = l :: large ∧
      bld'.scaled = bld.scaled.set l (bld.scaled.getD l 0 + bld.scaled.getD s 0 - aliasScale.toUInt64) ∧
      bld'.table = pairSlots weights bld.table s l (bld.scaled.getD s 0).toUInt32 ∧
      (bld'.small = l :: small ∧ bld'.large = large ∧
          bld.scaled.getD l 0 + bld.scaled.getD s 0 - aliasScale.toUInt64 < aliasScale.toUInt64 ∨
        bld'.small = small ∧ bld'.large = l :: large ∧
          ¬ bld.scaled.getD l 0 + bld.scaled.getD s 0 - aliasScale.toUInt64 < aliasScale.toUInt64) := by
  unfold AliasBuild.turn at h
  split at h
  · rename_i s small l large hs hl
    refine ⟨s, small, l, large, hs, hl, ?_⟩
    simp only [Option.some.injEq] at h
    subst h
    split
    · rename_i hlt
      exact ⟨rfl, rfl, Or.inl ⟨rfl, rfl, hlt⟩⟩
    · rename_i hlt
      exact ⟨rfl, rfl, Or.inr ⟨rfl, rfl, hlt⟩⟩
  · cases h

/-! ## The ledger of the loop -/

def share (weights : List (BackendId × UInt32)) (i : Nat) : Nat := (AliasBuild.start weights).value i

/-- What rounding down has taken from all shares together. -/
def lost (weights : List (BackendId × UInt32)) : Nat :=
  weights.length * aliasScale.toNat - (weights.map (exactShare weights)).sum

structure Balanced (weights : List (BackendId × UInt32)) (bld : AliasBuild) : Prop where
  ledger : Ledger aliasScale.toNat (lost weights) (weights.map (·.1)) (share weights) (bld.small ++ bld.large)
    bld.value (bld.table.map AliasEntry.slot)
  light : ∀ i ∈ bld.small, bld.value i < aliasScale.toNat
  heavy : ∀ i ∈ bld.large, aliasScale.toNat ≤ bld.value i
  length_eq : bld.scaled.length = weights.length

theorem sum_exactShare (h : Accepted weights) :
    (weights.map (exactShare weights)).sum + lost weights = weights.length * aliasScale.toNat ∧
      lost weights ≤ weights.length - 1 := by
  have hW := h.totalWeight_pos
  have hn := h.length_pos
  have hall : (weights.map fun w => weights.length * aliasScale.toNat * w.2.toNat).sum =
      weights.length * aliasScale.toNat * totalWeight weights := List.sum_map_mul_left ..
  have hdiv : (weights.map fun w => weights.length * aliasScale.toNat * w.2.toNat).map (· / totalWeight weights) =
      weights.map (exactShare weights) := List.map_map
  have hle := sum_div_le (totalWeight weights) (weights.map fun w => weights.length * aliasScale.toNat * w.2.toNat)
  have hlt := sum_lt_div hW (weights.map fun w => weights.length * aliasScale.toNat * w.2.toNat)
  rw [hall, hdiv] at hle hlt
  rw [List.length_map] at hlt
  have hsum := Nat.le_of_mul_le_mul_right hle hW
  have hsum' : weights.length * aliasScale.toNat < (weights.map (exactShare weights)).sum + weights.length :=
    Nat.lt_of_mul_lt_mul_right (a := totalWeight weights) (by omega)
  unfold lost
  omega

theorem shares_eq (h : Accepted weights) :
    (List.range weights.length).map (share weights) = weights.map (exactShare weights) := by
  apply List.ext_getElem
  · simp
  · intro i hi hi'
    rw [List.length_map] at hi'
    rw [List.getElem_map, List.getElem_range, List.getElem_map]
    exact h.share_eq (List.getElem?_eq_getElem hi')

theorem start_light (weights : List (BackendId × UInt32)) (i : Nat) :
    decide ((scaleWeights weights).getD i 0 < aliasScale.toUInt64) = true ↔
      (AliasBuild.start weights).value i < aliasScale.toNat := by
  rw [decide_eq_true_iff, UInt64.lt_iff_toNat_lt]
  rfl

theorem balanced_start (h : Accepted weights) (hids : (weights.map (·.1)).Nodup) :
    Balanced weights (.start weights) where
  ledger := by
    have htable : (AliasBuild.start weights).table.map AliasEntry.slot =
        (weights.map (·.1)).map (Slot.full aliasScale.toNat) := by
      simp only [AliasBuild.start, List.map_map]
      rfl
    have hperm : ((AliasBuild.start weights).small ++ (AliasBuild.start weights).large).Perm
        (List.range weights.length) :=
      ((List.reverse_perm _).append (List.reverse_perm _)).trans (List.filter_append_perm _ _)
    rw [htable]
    apply Ledger.start hids
    · rwa [List.length_map]
    · rw [(hperm.map _).sum_eq, shares_eq h, List.length_map]
      exact (sum_exactShare h).1
  light i hi := by
    obtain ⟨-, hlight⟩ := List.mem_filter.mp (List.mem_reverse.mp hi)
    exact (start_light weights i).mp hlight
  heavy i hi := by
    obtain ⟨-, hheavy⟩ := List.mem_filter.mp (List.mem_reverse.mp hi)
    rw [Bool.not_eq_true'] at hheavy
    exact Nat.le_of_not_lt fun hlt => Bool.false_ne_true (hheavy.symm.trans ((start_light weights i).mpr hlt))
  length_eq := by simp [AliasBuild.start, scaleWeights]

/-- The numbers of the turn with the light `s` and the heavy `l` are what they are without any bound on words. -/
structure TurnExact (bld : AliasBuild) (s l : Nat) : Prop where
  sum_lt : bld.value l + bld.value s < 2 ^ 64
  sub_le : aliasScale.toNat ≤ bld.value l + bld.value s
  cast_lt : bld.value s < 2 ^ 32

theorem stacks_perm (s l : Nat) (small large : List Nat) :
    (s :: small ++ l :: large).Perm (s :: l :: (small ++ large)) := List.perm_middle.cons s

theorem Balanced.turn_exact {bld : AliasBuild} (hw : Accepted weights) (h : Balanced weights bld) {s l : Nat}
    {small large : List Nat} (hs : bld.small = s :: small) (hl : bld.large = l :: large) : TurnExact bld s l := by
  have hledger := h.ledger
  rw [hs, hl] at hledger
  have hsum := (hledger.perm (stacks_perm s l small large)).value_add_le
  have hlight := h.light s (by simp [hs])
  have hheavy := h.heavy l (by simp [hl])
  have hlen := hw.length_le
  have hscale : aliasScale.toNat = 2 ^ 24 := rfl
  unfold maxWeightedBackends at hlen
  rw [List.length_map] at hsum
  rw [hscale] at hsum hlight
  exact ⟨by omega, by omega, by omega⟩

theorem TurnExact.new_large {bld : AliasBuild} {s l : Nat} (h : TurnExact bld s l) :
    (bld.scaled.getD l 0 + bld.scaled.getD s 0 - aliasScale.toUInt64).toNat =
      bld.value l + bld.value s - aliasScale.toNat := by
  have hadd : (bld.scaled.getD l 0 + bld.scaled.getD s 0).toNat = bld.value l + bld.value s := by
    rw [UInt64.toNat_add]
    exact Nat.mod_eq_of_lt h.sum_lt
  rw [UInt64.toNat_sub_of_le, hadd]
  · rfl
  · rw [UInt64.le_iff_toNat_le, hadd]
    exact h.sub_le

theorem TurnExact.prob {bld : AliasBuild} {s l : Nat} (h : TurnExact bld s l) :
    (bld.scaled.getD s 0).toUInt32.toNat = bld.value s := by
  rw [UInt64.toNat_toUInt32]
  exact Nat.mod_eq_of_lt h.cast_lt

theorem pairSlots_slots {s l : Nat} {bs bl : BackendId} (hbs : (weights.map (·.1))[s]? = some bs)
    (hbl : (weights.map (·.1))[l]? = some bl) (table : List AliasEntry) (probScaled : UInt32) :
    (pairSlots weights table s l probScaled).map AliasEntry.slot =
      (table.map AliasEntry.slot).set s ⟨bs, bl, probScaled.toNat⟩ := by
  rw [List.getElem?_map, Option.map_eq_some_iff] at hbs hbl
  obtain ⟨ws, hws, rfl⟩ := hbs
  obtain ⟨wl, hwl, rfl⟩ := hbl
  simp only [pairSlots, hws, hwl, List.map_set]
  rfl

section

variable {bld bld' : AliasBuild} {s l : Nat} {small large : List Nat}

theorem value_payer (hexact : TurnExact bld s l) (hl : l < bld.scaled.length)
    (hscaled : bld'.scaled = bld.scaled.set l (bld.scaled.getD l 0 + bld.scaled.getD s 0 - aliasScale.toUInt64)) :
    bld'.value l = bld.value l + bld.value s - aliasScale.toNat := by
  rw [← hexact.new_large, AliasBuild.value, hscaled, List.getD_eq_getElem?_getD, List.getElem?_set_self hl]
  rfl

theorem value_other {new : UInt64} (hscaled : bld'.scaled = bld.scaled.set l new) {i : Nat} (hi : i ≠ l) :
    bld'.value i = bld.value i := by
  unfold AliasBuild.value
  rw [hscaled, List.getD_eq_getElem?_getD, List.getElem?_set_ne hi.symm, ← List.getD_eq_getElem?_getD]

theorem Balanced.others (h : Balanced weights bld) (hs : bld.small = s :: small) (hl : bld.large = l :: large)
    {new : UInt64} (hscaled : bld'.scaled = bld.scaled.set l new) :
    (∀ i ∈ small, bld'.value i = bld.value i ∧ bld'.value i < aliasScale.toNat) ∧
      ∀ i ∈ large, bld'.value i = bld.value i ∧ aliasScale.toNat ≤ bld'.value i := by
  have hnodup := h.ledger.nodup
  rw [hs, hl, (stacks_perm s l small large).nodup_iff] at hnodup
  simp only [List.nodup_cons, List.mem_append, not_or] at hnodup
  obtain ⟨-, ⟨hlsmall, hllarge⟩, -⟩ := hnodup
  constructor
  · intro i hi
    have hsame := value_other hscaled fun heq => hlsmall (heq ▸ hi)
    exact ⟨hsame, hsame ▸ h.light i (by simp [hs, hi])⟩
  · intro i hi
    have hsame := value_other hscaled fun heq => hllarge (heq ▸ hi)
    exact ⟨hsame, hsame ▸ h.heavy i (by simp [hl, hi])⟩

theorem turn_pays (hw : Accepted weights) (hids : (weights.map (·.1)).Nodup) (h : Balanced weights bld)
    (hs : bld.small = s :: small) (hl : bld.large = l :: large)
    (hscaled : bld'.scaled = bld.scaled.set l (bld.scaled.getD l 0 + bld.scaled.getD s 0 - aliasScale.toUInt64))
    (htable : bld'.table = pairSlots weights bld.table s l (bld.scaled.getD s 0).toUInt32) :
    bld'.value l = bld.value l + bld.value s - aliasScale.toNat ∧
      Ledger aliasScale.toNat (lost weights) (weights.map (·.1)) (share weights) (l :: (small ++ large)) bld'.value
        (bld'.table.map AliasEntry.slot) := by
  have hexact := h.turn_exact hw hs hl
  obtain ⟨hsmall, hlarge⟩ := h.others hs hl hscaled
  have hledger := h.ledger
  rw [hs, hl] at hledger
  replace hledger := hledger.perm (stacks_perm s l small large)
  obtain ⟨bs, hbs, -⟩ := hledger.full s (by simp)
  obtain ⟨bl, hbl, -⟩ := hledger.full l (by simp)
  have hlt : l < bld.scaled.length := by
    have hlt := (List.getElem?_eq_some_iff.mp hbl).1
    rwa [List.length_map, ← h.length_eq] at hlt
  have hvalue := value_payer hexact hlt hscaled
  refine ⟨hvalue, ?_⟩
  rw [htable, pairSlots_slots hbs hbl, hexact.prob]
  apply hledger.pay hids hbs hbl (h.light s (by simp [hs])).le (h.heavy l (by simp [hl])) hvalue
  intro i hi
  rcases List.mem_append.mp hi with hi | hi
  · exact (hsmall i hi).1
  · exact (hlarge i hi).1

theorem balanced_turn (hw : Accepted weights) (hids : (weights.map (·.1)).Nodup) (h : Balanced weights bld)
    (hturn : bld.turn weights = some bld') : Balanced weights bld' := by
  obtain ⟨s, small, l, large, hs, hl, hscaled, htable, hstacks⟩ := turn_some hturn
  obtain ⟨hvalue, hpays⟩ := turn_pays hw hids h hs hl hscaled htable
  obtain ⟨hsmall, hlarge⟩ := h.others hs hl hscaled
  have hlength : bld'.scaled.length = weights.length := by rw [hscaled, List.length_set, h.length_eq]
  rw [UInt64.lt_iff_toNat_lt, (h.turn_exact hw hs hl).new_large, ← hvalue] at hstacks
  rcases hstacks with ⟨hs', hl', hlt⟩ | ⟨hs', hl', hlt⟩
  · -- `l` is light now
    refine ⟨?_, ?_, ?_, hlength⟩
    · rw [hs', hl']
      exact hpays
    · rw [hs', List.forall_mem_cons]
      exact ⟨hlt, fun i hi => (hsmall i hi).2⟩
    · rw [hl']
      exact fun i hi => (hlarge i hi).2
  · -- `l` is still heavy
    refine ⟨?_, ?_, ?_, hlength⟩
    · rw [hs', hl']
      exact hpays.perm List.perm_middle.symm
    · rw [hs']
      exact fun i hi => (hsmall i hi).2
    · rw [hl', List.forall_mem_cons]
      exact ⟨Nat.le_of_not_lt hlt, fun i hi => (hlarge i hi).2⟩

end

theorem balanced_of_reachable (hw : Accepted weights) (hids : (weights.map (·.1)).Nodup) {bld : AliasBuild}
    (h : (building weights).Reachable bld) : Balanced weights bld :=
  Machine.Reachable.invariant (I := Balanced weights) (balanced_start hw hids)
    (fun _ _ _ hbld hturn => balanced_turn hw hids hbld hturn) h

/-! ## The end of the loop -/

theorem pair_last {fuel : Nat} {bld : AliasBuild} (h : (building weights).Reachable bld)
    (hfuel : bld.small.length + bld.large.length ≤ fuel) :
    ∃ last, (building weights).Reachable last ∧ last.turn weights = none ∧
      AliasBuild.pair weights fuel bld = last.popped := by
  induction fuel generalizing bld with
  | zero =>
    have hsmall : bld.small = [] := List.eq_nil_of_length_eq_zero (by omega)
    have hlarge : bld.large = [] := List.eq_nil_of_length_eq_zero (by omega)
    obtain ⟨small, large, scaled, table⟩ := bld
    subst hsmall hlarge
    exact ⟨_, h, rfl, rfl⟩
  | succ fuel ih =>
    rw [pair_succ]
    cases hturn : bld.turn weights with
    | none => exact ⟨bld, h, hturn, rfl⟩
    | some next =>
      apply ih (.step (a := ()) h hturn trivial)
      obtain ⟨s, small, l, large, hs, hl, -, -, hstacks⟩ := turn_some hturn
      rw [hs, hl, List.length_cons, List.length_cons] at hfuel
      rcases hstacks with ⟨hs', hl', -⟩ | ⟨hs', hl', -⟩
      · rw [hs', hl', List.length_cons]
        omega
      · rw [hs', hl', List.length_cons]
        omega

theorem settle_full {table : List AliasEntry} {is : List Nat}
    (h : ∀ i ∈ is, ∃ b, (weights.map (·.1))[i]? = some b ∧
      (table.map AliasEntry.slot)[i]? = some (Slot.full aliasScale.toNat b)) :
    is.foldl (settle weights) table = table := by
  induction is with
  | nil => rfl
  | cons i is ih =>
    obtain ⟨⟨b, hb, hslot⟩, his⟩ := List.forall_mem_cons.mp h
    rw [List.getElem?_map, Option.map_eq_some_iff] at hb hslot
    obtain ⟨w, hw, rfl⟩ := hb
    obtain ⟨e, he, heq⟩ := hslot
    obtain rfl : e = fullEntry w := slot_injective heq
    have hsettle : settle weights table i = table := by
      obtain ⟨hi, hget⟩ := List.getElem?_eq_some_iff.mp he
      simp only [settle, hw, ← hget, List.set_getElem_self]
    rw [List.foldl_cons, hsettle]
    exact ih his

theorem aliasTable_last (hw : Accepted weights) (hids : (weights.map (·.1)).Nodup) :
    ∃ last, Balanced weights last ∧ last.turn weights = none ∧ aliasTable weights = last.table := by
  have hlen : (AliasBuild.start weights).small.length + (AliasBuild.start weights).large.length ≤ weights.length := by
    have hle := (balanced_start hw hids).ledger.length_le
    rwa [List.length_append, List.length_map] at hle
  have hinit : (building weights).Reachable (.start weights) := .init
  obtain ⟨last, hlast, hend, hpair⟩ := pair_last hinit hlen
  have hbal := balanced_of_reachable hw hids hlast
  refine ⟨last, hbal, hend, ?_⟩
  unfold aliasTable
  simp only [hpair]
  apply settle_full
  intro i hi
  apply hbal.ledger.full
  rw [List.mem_append, List.mem_reverse, List.mem_reverse] at hi
  exact List.mem_append.mpr (hi.symm.imp List.mem_of_mem_tail List.mem_of_mem_tail)

/-! ## The masses -/

/-- No word of `with_seed` overflows, and none is cut by the cast. -/
structure Exact (weights : List (BackendId × UInt32)) : Prop where
  total : 0 < totalWeight weights ∧ totalWeight weights < 2 ^ 64
  scaled : ∀ w ∈ weights, w.2.toNat * weights.length < 2 ^ 64 ∧
    w.2.toNat * weights.length * aliasScale.toNat < 2 ^ 64
  turns : ∀ bld, (building weights).Reachable bld → ∀ s l, bld.small.head? = some s → bld.large.head? = some l →
    TurnExact bld s l

theorem exact_of_accepted (hw : Accepted weights) (hids : (weights.map (·.1)).Nodup) : Exact weights where
  total := ⟨hw.totalWeight_pos, hw.totalWeight_lt.trans (by decide)⟩
  scaled w _ := by
    have hprod := hw.product_lt w.2
    have hstep : w.2.toNat * weights.length ≤ w.2.toNat * weights.length * aliasScale.toNat :=
      Nat.le_mul_of_pos_right _ (by decide)
    omega
  turns bld hbld s l hs hl := by
    obtain ⟨small, hs⟩ := List.head?_eq_some_iff.mp hs
    obtain ⟨large, hl⟩ := List.head?_eq_some_iff.mp hl
    exact (balanced_of_reachable hw hids hbld).turn_exact hw hs hl

theorem massOf_near_share (hw : Accepted weights) (hids : (weights.map (·.1)).Nodup) {w : BackendId × UInt32}
    (h : w ∈ weights) :
    exactShare weights w ≤ massOf (aliasTable weights) w.1 ∧
      massOf (aliasTable weights) w.1 ≤ exactShare weights w + (weights.length - 1) := by
  obtain ⟨last, hbal, hend, htable⟩ := aliasTable_last hw hids
  obtain ⟨i, hi⟩ := List.mem_iff_getElem?.mp h
  have hname : (weights.map (·.1))[i]? = some w.1 := by rw [List.getElem?_map, hi, Option.map_some]
  have hshare : share weights i = exactShare weights w := hw.share_eq hi
  have hlost := (sum_exactShare hw).2
  have hsides : (∀ i ∈ last.small ++ last.large, last.value i ≤ aliasScale.toNat) ∨
      ∀ i ∈ last.small ++ last.large, aliasScale.toNat ≤ last.value i := by
    rcases turn_none hend with hnil | hnil
    · rw [hnil, List.nil_append]
      exact Or.inr hbal.heavy
    · rw [hnil, List.append_nil]
      exact Or.inl fun i hi => (hbal.light i hi).le
  have hfinish := hbal.ledger.finish hsides hname
  rw [hshare] at hfinish
  unfold massOf
  rw [htable]
  omega

theorem sample_eq (r : WeightedRandomRouter) :
    let x := r.nextU64.2
    ∃ e, r.table[x.toNat % r.table.length]? = some e ∧
      r.sample.2 = e.slot.pick ((x >>> 32).toUInt32 &&& (aliasScale - 1)).toNat := by
  intro x
  have hlt := Nat.mod_lt x.toNat (List.length_pos_iff_ne_nil.mpr r.table_ne)
  refine ⟨r.table[x.toNat % r.table.length], List.getElem?_eq_getElem hlt, ?_⟩
  simp only [WeightedRandomRouter.sample, Slot.pick, AliasEntry.slot, UInt32.lt_iff_toNat_lt]
  rfl

/-- The mass counts the slots and coins with which a sample gives the backend. -/
theorem massOf_eq_picks (hw : Accepted weights) (hids : (weights.map (·.1)).Nodup) (b : BackendId) :
    massOf (aliasTable weights) b =
      ((aliasTable weights).map fun e => Nat.count (fun coin => e.slot.pick coin = b) aliasScale.toNat).sum := by
  obtain ⟨last, hbal, -, htable⟩ := aliasTable_last hw hids
  unfold massOf mass
  rw [List.map_map]
  apply congrArg List.sum
  apply List.map_congr_left
  intro e he
  rw [htable] at he
  exact (Slot.count_pick _ (hbal.ledger.cut e.slot (List.mem_map_of_mem he)) b).symm

theorem sum_massOf (hw : Accepted weights) (hids : (weights.map (·.1)).Nodup) :
    (weights.map fun w => massOf (aliasTable weights) w.1).sum = weights.length * aliasScale.toNat := by
  obtain ⟨last, hbal, -, htable⟩ := aliasTable_last hw hids
  have hsum : ((weights.map (·.1)).map (massOf (aliasTable weights))).sum =
      ((aliasTable weights).map AliasEntry.slot).length * aliasScale.toNat := by
    apply sum_mass hids
    intro slot hslot
    have hcut := hbal.ledger.cut slot (htable ▸ hslot)
    obtain ⟨e, he, rfl⟩ := List.mem_map.mp hslot
    obtain ⟨hprimary, halias⟩ := aliasTable_within weights e he
    exact ⟨hprimary, halias, hcut⟩
  rwa [List.map_map, List.length_map, aliasTable_length] at hsum

theorem alias_masses (hne : weights ≠ []) (hlen : weights.length ≤ maxWeightedBackends)
    (hpos : ∀ w ∈ weights, 0 < w.2) (hids : (weights.map (·.1)).Nodup) (seed : UInt64) :
    ∃ r, WeightedRandomRouter.withSeed weights seed = some r ∧
      (∀ w ∈ weights, exactShare weights w ≤ massOf r.table w.1 ∧
        massOf r.table w.1 ≤ exactShare weights w + (weights.length - 1)) ∧
      (weights.map fun w => massOf r.table w.1).sum = weights.length * aliasScale.toNat ∧ Exact weights := by
  have hw : Accepted weights := ⟨hne, hlen, hpos⟩
  unfold WeightedRandomRouter.withSeed
  rw [dif_pos ⟨hne, hlen, hpos⟩]
  exact ⟨_, rfl, fun w h => massOf_near_share hw hids h, sum_massOf hw hids, exact_of_accepted hw hids⟩

/-- With the weights 1 and 2 no share is whole. -/
theorem one_to_two_masses :
    let weights : List (BackendId × UInt32) := [(⟨0⟩, 1), (⟨1⟩, 2)]
    ∃ r, WeightedRandomRouter.withSeed weights 7 = some r ∧
      (∀ w ∈ weights, exactShare weights w ≤ massOf r.table w.1 ∧
        massOf r.table w.1 ≤ exactShare weights w + (weights.length - 1)) ∧
      (weights.map fun w => massOf r.table w.1).sum = weights.length * aliasScale.toNat ∧ Exact weights :=
  alias_masses (by decide) (by decide) (by decide) (by decide) 7

end Riftgate.Router
