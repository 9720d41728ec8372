import Mathlib.Algebra.Order.Field.Rat
import Mathlib.Algebra.BigOperators.Group.List.Basic
import Mathlib.Tactic.Linarith

/-!
# `f64` with exact arithmetic

The values of an IEEE 754 double, with the finite ones taken as exact
rationals: the special values and the rules that produce and propagate them
are kept (`∞ - ∞` is `NaN`, every comparison with `NaN` is false, `max` drops a
`NaN` operand), rounding and overflow are not, and the two zeros are one.

Addition is a commutative monoid here, so a running total is a `List.sum`
whatever order it was accumulated in.
-/

/-- A double, up to rounding. -/
inductive F64 : Type where
  /-- a finite value, exactly -/
  | finite : ℚ → F64
  /-- positive infinity -/
  | posInf : F64
  /-- negative infinity -/
  | negInf : F64
  /-- not a number -/
  | nan : F64
  deriving DecidableEq, Repr

namespace F64

instance : Zero F64 := ⟨finite 0⟩

instance : Inhabited F64 := ⟨0⟩

/-! ## Arithmetic -/

/-- Addition. Infinities of opposite sign have no sum. -/
protected def add : F64 → F64 → F64
  | finite a, finite b => finite (a + b)
  | nan, _ => nan
  | _, nan => nan
  | posInf, negInf => nan
  | negInf, posInf => nan
  | posInf, _ => posInf
  | _, posInf => posInf
  | negInf, _ => negInf
  | _, negInf => negInf

/-- Negation. -/
protected def neg : F64 → F64
  | finite a => finite (-a)
  | posInf => negInf
  | negInf => posInf
  | nan => nan

instance : Add F64 := ⟨F64.add⟩

instance : Neg F64 := ⟨F64.neg⟩

instance : Sub F64 := ⟨fun a b => a + -b⟩

/-- Multiplication. -/
protected def mul : F64 → F64 → F64
  | finite a, finite b => finite (a * b)
  | nan, _ => nan
  | _, nan => nan
  | a, b =>
    let negative : F64 → Bool := fun x => match x with
      | finite q => decide (q < 0)
      | negInf => true
      | _ => false
    if a = finite 0 ∨ b = finite 0 then nan
    else if negative a == negative b then posInf else negInf

instance : Mul F64 := ⟨F64.mul⟩

/-- Division; a zero divisor is `+0.0`. -/
protected def div : F64 → F64 → F64
  | finite a, finite b =>
    if b = 0 then
      if 0 < a then posInf else if a < 0 then negInf else nan
    else finite (a / b)
  | finite _, posInf => finite 0
  | finite _, negInf => finite 0
  | posInf, finite b => if b < 0 then negInf else posInf
  | negInf, finite b => if b < 0 then posInf else negInf
  | _, _ => nan

instance : Div F64 := ⟨F64.div⟩

/-- `a < b`; false when either side is `NaN`. -/
def lt : F64 → F64 → Bool
  | finite a, finite b => decide (a < b)
  | nan, _ => false
  | _, nan => false
  | negInf, negInf => false
  | negInf, _ => true
  | _, negInf => false
  | posInf, _ => false
  | _, posInf => true

/-- `a <= b`; false when either side is `NaN`. -/
def le (a b : F64) : Bool := lt a b || (decide (a = b) && decide (a ≠ nan))

/-- `f64::max`: the other operand when one is `NaN`. -/
def max (a b : F64) : F64 :=
  if a = nan then b else if b = nan then a else if lt a b then b else a

/-- `f64::min`: the other operand when one is `NaN`. -/
def min (a b : F64) : F64 :=
  if a = nan then b else if b = nan then a else if lt b a then b else a

/-- `f64::clamp`; a `NaN` stays one. -/
def clamp (a lo hi : F64) : F64 := if lt a lo then lo else if lt hi a then hi else a

/-- `f64::abs`. -/
def abs : F64 → F64
  | finite q => finite |q|
  | negInf => posInf
  | a => a

/-- `f64::is_finite`. -/
def isFinite : F64 → Bool
  | finite _ => true
  | _ => false

/-! ## The finite fragment -/

@[simp] theorem zero_eq : (0 : F64) = finite 0 := rfl

@[simp] theorem finite_add (a b : ℚ) : finite a + finite b = finite (a + b) := rfl

@[simp] theorem finite_sub (a b : ℚ) : finite a - finite b = finite (a - b) := by
  rw [sub_eq_add_neg]
  rfl

theorem finite_div (a : ℚ) {b : ℚ} (h : b ≠ 0) : finite a / finite b = finite (a / b) :=
  if_neg h

@[simp] theorem finite_lt (a b : ℚ) : lt (finite a) (finite b) = decide (a < b) := rfl

@[simp] theorem finite_le (a b : ℚ) : le (finite a) (finite b) = decide (a ≤ b) := by
  simp [le, le_iff_lt_or_eq]

@[simp] theorem finite_min (a b : ℚ) : min (finite a) (finite b) = finite (Min.min a b) := by
  rcases lt_or_ge b a with h | h
  · simp [min, h, h.le]
  · simp [min, h, not_lt.mpr h]

/-- `f64::clamp` between finite bounds. -/
theorem finite_clamp (a : ℚ) {lo hi : ℚ} (h : lo ≤ hi) :
    clamp (finite a) (finite lo) (finite hi) = finite (Max.max lo (Min.min hi a)) := by
  rw [clamp, finite_lt, finite_lt]
  by_cases hlow : a < lo
  · rw [if_pos (decide_eq_true hlow), min_eq_right (hlow.le.trans h), max_eq_left hlow.le]
  · rw [if_neg (by simpa using hlow)]
    by_cases hhigh : hi < a
    · rw [if_pos (decide_eq_true hhigh), min_eq_left hhigh.le, max_eq_right h]
    · rw [if_neg (by simpa using hhigh), min_eq_right (not_lt.mp hhigh),
        max_eq_right (not_lt.mp hlow)]

@[simp] theorem finite_max (a b : ℚ) : max (finite a) (finite b) = finite (Max.max a b) := by
  rcases lt_or_ge a b with h | h
  · simp [max, h, h.le]
  · simp [max, h, not_lt.mpr h]

/-! ## Addition is a commutative monoid -/

protected theorem add_comm' (a b : F64) : a + b = b + a := by
  change F64.add a b = F64.add b a
  cases a <;> cases b <;> simp [F64.add, add_comm]

protected theorem add_assoc' (a b c : F64) : a + b + c = a + (b + c) := by
  change F64.add (F64.add a b) c = F64.add a (F64.add b c)
  cases a <;> cases b <;> cases c <;> simp [F64.add, add_assoc]

protected theorem zero_add' (a : F64) : 0 + a = a := by
  change F64.add (finite 0) a = a
  cases a <;> simp [F64.add]

instance : AddCommMonoid F64 where
  add_assoc := F64.add_assoc'
  zero_add := F64.zero_add'
  add_zero a := by rw [F64.add_comm', F64.zero_add']
  add_comm := F64.add_comm'
  nsmul := nsmulRec

/-- A distance does not depend on the side it is measured from. -/
theorem abs_sub_comm' (a b : F64) : abs (a - b) = abs (b - a) := by
  change abs (F64.add a (F64.neg b)) = abs (F64.add b (F64.neg a))
  have hfinite : ∀ p q : ℚ, |p + -q| = |q + -p| := fun p q => by
    rw [← sub_eq_add_neg, ← sub_eq_add_neg, abs_sub_comm]
  cases a <;> cases b <;> simp [F64.add, F64.neg, abs, hfinite]

/-! ## Amounts -/

/-- A finite value that is not negative. -/
def IsAmount (a : F64) : Prop := ∃ q : ℚ, 0 ≤ q ∧ a = finite q

theorem isAmount_zero : IsAmount 0 := ⟨0, le_refl 0, rfl⟩

theorem IsAmount.add {a b : F64} (ha : IsAmount a) (hb : IsAmount b) : IsAmount (a + b) := by
  obtain ⟨p, hp, rfl⟩ := ha
  obtain ⟨q, hq, rfl⟩ := hb
  exact ⟨p + q, add_nonneg hp hq, finite_add p q⟩

theorem isAmount_sum {l : List F64} (h : ∀ a ∈ l, IsAmount a) : IsAmount l.sum := by
  induction l with
  | nil => exact isAmount_zero
  | cons a l ih =>
    rw [List.sum_cons]
    exact (h a (List.mem_cons_self ..)).add (ih fun b hb => h b (List.mem_cons_of_mem _ hb))

theorem isFinite_iff {a : F64} : a.isFinite = true ↔ ∃ q : ℚ, a = finite q := by
  cases a with
  | finite q => simp [isFinite]
  | posInf => simp [isFinite]
  | negInf => simp [isFinite]
  | nan => simp [isFinite]

theorem isFinite_add {a b : F64} (ha : a.isFinite = true) (hb : b.isFinite = true) :
    (a + b).isFinite = true := by
  obtain ⟨p, rfl⟩ := isFinite_iff.mp ha
  obtain ⟨q, rfl⟩ := isFinite_iff.mp hb
  rfl

/-- Only zero can be added to a finite total without changing it. -/
theorem eq_zero_of_eq_add {a b : F64} (ha : a.isFinite = true) (h : a = a + b) : b = 0 := by
  obtain ⟨p, rfl⟩ := isFinite_iff.mp ha
  cases b with
  | finite q =>
    rw [finite_add] at h
    have hq : p = p + q := F64.finite.inj h
    have hzero : q = 0 := by linarith
    rw [hzero]
    rfl
  | posInf => cases h
  | negInf => cases h
  | nan => cases h

/-- The value of a finite double. -/
def value : F64 → ℚ
  | finite q => q
  | _ => 0

@[simp] theorem value_finite (q : ℚ) : (finite q).value = q := rfl

theorem eq_finite_value {a : F64} (h : a.isFinite = true) : a = finite a.value := by
  obtain ⟨q, rfl⟩ := isFinite_iff.mp h
  rfl

/-- The total of finite values. -/
theorem sum_eq_finite {l : List F64} (h : ∀ a ∈ l, a.isFinite = true) :
    l.sum = finite (l.map value).sum := by
  induction l with
  | nil => rfl
  | cons a l ih =>
    have hl := ih fun b hb => h b (List.mem_cons_of_mem _ hb)
    rw [List.sum_cons, hl, eq_finite_value (h a List.mem_cons_self), finite_add, List.map_cons,
      List.sum_cons, value_finite]

/-! ## Decimal rendering -/

/-- Round to the nearest integer, ties to even. -/
def roundHalfEven (q : ℚ) : ℤ :=
  let f := q.floor
  let r := q - f
  if r < 1 / 2 then f else if 1 / 2 < r then f + 1 else if f % 2 = 0 then f else f + 1

/-- `n` in decimal, zero-padded to `width` digits. -/
def padded (width n : ℕ) : String :=
  let s := toString n
  String.ofList (List.replicate (width - s.length) '0') ++ s

/-- Rust's `{:.digits}`: a fixed number of decimal places. -/
def fixed (digits : ℕ) : F64 → String
  | finite q =>
    let m := (roundHalfEven ((if q < 0 then -q else q) * 10 ^ digits)).toNat
    let sign := if q < 0 then "-" else ""
    let frac := if digits = 0 then "" else "." ++ padded digits (m % 10 ^ digits)
    sign ++ toString (m / 10 ^ digits) ++ frac
  | posInf => "inf"
  | negInf => "-inf"
  | nan => "NaN"

end F64
