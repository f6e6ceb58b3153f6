import Mathlib.Data.List.Basic
import Mathlib.Tactic.Ring

/-!
# Little-endian fields

A field of `w` bytes holds a number below `256 ^ w`, low byte first.
-/

namespace Lib

abbrev Byte := UInt8

/-- The `w` low bytes of `n`, low byte first. -/
def toLe (w n : Nat) : List Byte := (List.range w).map fun i => UInt8.ofNat (n / 256 ^ i)

/-- The number that the bytes of a field hold. -/
def ofLe (l : List Byte) : Nat := l.foldr (fun b acc => b.toNat + 256 * acc) 0

@[simp] theorem toLe_length (w n : Nat) : (toLe w n).length = w := by simp [toLe]

@[simp] theorem ofLe_nil : ofLe [] = 0 := rfl

@[simp] theorem ofLe_cons (b : Byte) (l : List Byte) : ofLe (b :: l) = b.toNat + 256 * ofLe l := rfl

theorem toLe_succ (w n : Nat) : toLe (w + 1) n = UInt8.ofNat n :: toLe w (n / 256) := by
  simp only [toLe, List.range_succ_eq_map, List.map_cons, List.map_map, pow_zero, Nat.div_one,
    List.cons.injEq, true_and]
  apply List.map_congr_left
  intro i _
  simp only [Function.comp, Nat.div_div_eq_div_mul, pow_succ']

theorem ofLe_lt (l : List Byte) : ofLe l < 256 ^ l.length := by
  induction l with
  | nil => simp
  | cons b l ih =>
    have hb := b.toNat_lt
    simp only [ofLe_cons, List.length_cons, pow_succ]
    omega

theorem ofLe_toLe (w n : Nat) : ofLe (toLe w n) = n % 256 ^ w := by
  induction w generalizing n with
  | zero => simp [toLe, Nat.mod_one]
  | succ w ih =>
    rw [toLe_succ, ofLe_cons, ih, pow_succ', Nat.mod_mul]
    simp

theorem toLe_ofLe (l : List Byte) : toLe l.length (ofLe l) = l := by
  induction l with
  | nil => rfl
  | cons b l ih =>
    have hb := b.toNat_lt
    rw [List.length_cons, toLe_succ, ofLe_cons]
    have hdiv : (b.toNat + 256 * ofLe l) / 256 = ofLe l := by omega
    rw [hdiv, ih]
    congr 1
    apply UInt8.toNat_inj.mp
    simp

theorem toLe_ofLe_of_length (l : List Byte) (w : Nat) (h : l.length = w) : toLe w (ofLe l) = l := by
  rw [← h, toLe_ofLe]

end Lib
