import Mathlib.Data.Rat.Floor
import Mathlib.Tactic.Linarith
import ScriptMachine.Value.Arithmetic

/-!
# Exact arithmetic

The arithmetic of the language is that of the whole numbers, as long as the result is an integer of
the language.  Division finds the quotient rounded toward zero and then corrects it; the result is
the quotient rounded down, and no number on the way leaves the range.  There is one exception: a
remainder is only found where the quotient rounded toward zero is in range, so the least integer has
no remainder by `-1`.

## Main definitions

* `Arithmetic.exact` — the result of an operator on whole numbers.
* `Integer.IsDivision` — a quotient that is rounded down, with its remainder.
* `Integer.evaluateStepwise` — the arithmetic with every number on the way checked.

## Main results

* `Integer.isDivision_corrected` — correcting truncated division rounds down.
* `Integer.evaluate_eq` — the arithmetic is exact, with one exception.
* `Integer.evaluateStepwise_eq` — no number on the way is out of range.
* `Value.arithmetic_exact` — exact arithmetic on values.
* `Value.not_arithmetic_exact_least` — the exception.
-/

set_option autoImplicit false

namespace ScriptMachine

namespace Arithmetic

/-- The result of an operator on whole numbers: the quotient is rounded down, and the remainder is
what it leaves. -/
def exact (op : Arithmetic) (a b : Int) : Int :=
  match op with
  | .add => a + b
  | .sub => a - b
  | .mul => a * b
  | .div => ⌊(a : ℚ) / b⌋
  | .mod => a - b * ⌊(a : ℚ) / b⌋

/-- The operators that divide. -/
def divides : Arithmetic → Bool
  | div | mod => true
  | _ => false

end Arithmetic

namespace Integer

variable {a b q r : Int}

/-! ## Quotients that are rounded down -/

/-- A quotient and the remainder that it leaves, which lies between zero and the divisor. -/
structure IsDivision (a b q r : Int) : Prop where
  eq : a = b * q + r
  between : 0 ≤ r ∧ r < b ∨ b < r ∧ r ≤ 0

/-- Such a quotient is the exact one rounded down. -/
lemma IsDivision.floor_eq (h : IsDivision a b q r) : ⌊(a : ℚ) / b⌋ = q := by
  have ha : (a : ℚ) = b * q + r := by exact_mod_cast h.eq
  rw [Int.floor_eq_iff]
  rcases h.between with ⟨hlow, hhigh⟩ | ⟨hlow, hhigh⟩
  · have hr : (0 : ℚ) ≤ r ∧ (r : ℚ) < b := by exact_mod_cast And.intro hlow hhigh
    have hb : (0 : ℚ) < b := by linarith
    rw [le_div_iff₀ hb, div_lt_iff₀ hb]
    constructor <;> linarith
  · have hr : (b : ℚ) < r ∧ (r : ℚ) ≤ 0 := by exact_mod_cast And.intro hlow hhigh
    have hb : (b : ℚ) < 0 := by linarith
    rw [le_div_iff_of_neg hb, div_lt_iff_of_neg hb]
    constructor <;> linarith

/-- The remainder is what the quotient rounded down leaves. -/
lemma IsDivision.sub_mul_floor_eq (h : IsDivision a b q r) : a - b * ⌊(a : ℚ) / b⌋ = r := by
  rw [h.floor_eq, h.eq]
  omega

/-- A remainder that is not zero has the sign of the divisor, and is smaller. -/
lemma IsDivision.sign_eq (h : IsDivision a b q r) :
    (r = 0 ∨ r.sign = b.sign) ∧ r.natAbs < b.natAbs := by
  rcases h.between with ⟨hlow, hhigh⟩ | ⟨hlow, hhigh⟩
  · refine ⟨?_, by omega⟩
    rcases hlow.eq_or_lt with hzero | hpos
    · exact Or.inl hzero.symm
    · exact Or.inr (by rw [Int.sign_eq_one_of_pos hpos, Int.sign_eq_one_of_pos (by omega)])
  · refine ⟨?_, by omega⟩
    rcases hhigh.eq_or_lt with hzero | hneg
    · exact Or.inl hzero
    · exact Or.inr (by rw [Int.sign_eq_neg_one_of_neg hneg, Int.sign_eq_neg_one_of_neg (by omega)])

/-! ## Truncated division -/

/-- The quotient rounded toward zero leaves a remainder that is smaller than the divisor and has the
sign of the dividend. -/
lemma tdiv_tmod (a : Int) (hb : b ≠ 0) :
    b * a.tdiv b + a.tmod b = a ∧ (a.tmod b).natAbs < b.natAbs ∧ (0 ≤ a → 0 ≤ a.tmod b) ∧
      (a ≤ 0 → a.tmod b ≤ 0) := by
  refine ⟨Int.mul_tdiv_add_tmod a b, ?_, Int.tmod_nonneg b, fun ha => ?_⟩
  · rw [Int.natAbs_tmod]
    exact Nat.mod_lt _ (by omega)
  · have hneg := Int.tmod_nonneg b (a := -a) (by omega)
    rw [Int.neg_tmod] at hneg
    omega

/-- **Correcting truncated division** rounds down: where a remainder is left and its sign is not
that of the divisor, the quotient is lowered by one and the remainder raised by the divisor. -/
theorem isDivision_corrected (a : Int) (hb : b ≠ 0) :
    IsDivision a b
      (if a.tmod b ≠ 0 ∧ decide (a < 0) ≠ decide (b < 0) then a.tdiv b - 1 else a.tdiv b)
      (if a.tmod b ≠ 0 ∧ decide (a.tmod b < 0) ≠ decide (b < 0) then a.tmod b + b
        else a.tmod b) := by
  obtain ⟨heq, hlt, hnonneg, hnonpos⟩ := tdiv_tmod a hb
  have hmul : b * (a.tdiv b - 1) = b * a.tdiv b - b := by ring
  simp only [ne_eq, decide_eq_decide]
  constructor
  · split_ifs <;> omega
  · split_ifs <;> omega

/-- A divisor other than `1` and `-1` at least halves. -/
lemma natAbs_tdiv_le_half (a : Int) (hb : 2 ≤ b.natAbs) : (a.tdiv b).natAbs ≤ a.natAbs / 2 := by
  rw [Int.natAbs_tdiv]
  exact Nat.div_le_div_left hb (by omega)

/-- Only the least integer has a quotient rounded toward zero that is out of range, the one by
`-1`. -/
lemma fits_tdiv_iff (ha : Fits a) (hb : b ≠ 0) :
    Fits (a.tdiv b) ↔ ¬ (a = least ∧ b = -1) := by
  simp only [Fits, least, greatest] at ha ⊢
  by_cases hone : b.natAbs = 1
  · obtain rfl | rfl : b = 1 ∨ b = -1 := by omega
    · rw [Int.tdiv_one]
      omega
    · rw [Int.tdiv_neg, Int.tdiv_one]
      omega
  · have hhalf := natAbs_tdiv_le_half a (b := b) (by omega)
    omega

/-- If a remainder is left, the quotient that is lowered by one is in range, too. -/
lemma fits_tdiv_sub_one (ha : Fits a) (hb : b ≠ 0) (hrest : a.tmod b ≠ 0) :
    Fits (a.tdiv b - 1) := by
  have hlt := (tdiv_tmod a hb).2.1
  have hhalf := natAbs_tdiv_le_half a (b := b) (by omega)
  simp only [Fits, least, greatest] at ha ⊢
  omega

/-- A number that is smaller than an integer is one. -/
lemma fits_of_natAbs_lt (hb : Fits b) (hr : r.natAbs < b.natAbs) : Fits r := by
  simp only [Fits, least, greatest] at hb ⊢
  omega

/-! ## Arithmetic is exact -/

/-- There is a truncated quotient by anything but zero, if it is in range. -/
lemma truncatedQuotient_eq (ha : Fits a) (hb : b ≠ 0) :
    truncatedQuotient a b =
      if a = least ∧ b = -1 then .error .overflow else .ok (a.tdiv b) := by
  simp only [truncatedQuotient, if_neg hb, checked, fits_tdiv_iff ha hb, ite_not]

/-- The exact quotient of integers is in range, but for that of the least integer by `-1`. -/
lemma fits_exact_div_iff (ha : Fits a) (hb : b ≠ 0) :
    Fits (Arithmetic.exact .div a b) ↔ ¬ (a = least ∧ b = -1) := by
  rw [Arithmetic.exact, (isDivision_corrected a hb).floor_eq]
  split
  · next habove =>
    have hlt := (tdiv_tmod a hb).2.1
    refine iff_of_true (fits_tdiv_sub_one ha hb habove.1) ?_
    rintro ⟨-, rfl⟩
    omega
  · exact fits_tdiv_iff ha hb

/-- The exact remainder of integers is in range. -/
lemma fits_exact_mod (a : Int) (hb : Fits b) (hzero : b ≠ 0) :
    Fits (Arithmetic.exact .mod a b) := by
  have hdivision := isDivision_corrected a hzero
  rw [Arithmetic.exact, hdivision.sub_mul_floor_eq]
  exact fits_of_natAbs_lt hb hdivision.sign_eq.2

/-- **Arithmetic is exact.**  Nothing is divided by zero.  Otherwise the result is that on whole
numbers if it is in range, and out of range it is an overflow; the remainder of the least integer by
`-1` is an overflow, too. -/
theorem evaluate_eq (op : Arithmetic) (ha : Fits a) (hb : Fits b) :
    evaluate op a b =
      if op.divides ∧ b = 0 then .error .divisionByZero
      else if Fits (op.exact a b) ∧ ¬ (op = .mod ∧ a = least ∧ b = -1) then .ok (op.exact a b)
      else .error .overflow := by
  cases op with
  | add | sub | mul => simp [evaluate, checked, Arithmetic.divides, Arithmetic.exact]
  | div =>
    by_cases hzero : b = 0
    · simp [evaluate, divide, truncatedQuotient, Arithmetic.divides, hzero, bind, Except.bind]
    · simp only [evaluate, divide, truncatedQuotient_eq ha hzero, fits_exact_div_iff ha hzero,
        Arithmetic.divides, hzero]
      rw [Arithmetic.exact, (isDivision_corrected a hzero).floor_eq]
      split_ifs <;> simp_all [bind, Except.bind, pure, Except.pure]
  | mod =>
    by_cases hzero : b = 0
    · simp [evaluate, remainder, truncatedQuotient, Arithmetic.divides, hzero, bind, Except.bind]
    · simp only [evaluate, remainder, truncatedQuotient_eq ha hzero, fits_exact_mod a hb hzero,
        Arithmetic.divides, hzero]
      rw [Arithmetic.exact, (isDivision_corrected a hzero).sub_mul_floor_eq]
      split_ifs <;> simp_all [bind, Except.bind, pure, Except.pure]

/-! ## Numbers on the way -/

/-- The remainder of truncated division, which is only found together with the quotient. -/
def truncatedRemainder (a b : Int) : Except Failure Int := do
  let _ ← truncatedQuotient a b
  checked (a.tmod b)

/-- The arithmetic, with every number on the way checked to be in range. -/
def evaluateStepwise (op : Arithmetic) (a b : Int) : Except Failure Int :=
  match op with
  | .add | .sub | .mul => evaluate op a b
  | .div => do
    let q ← truncatedQuotient a b
    let r ← truncatedRemainder a b
    if r ≠ 0 ∧ decide (a < 0) ≠ decide (b < 0) then checked (q - 1) else return q
  | .mod => do
    let r ← truncatedRemainder a b
    if r ≠ 0 ∧ decide (r < 0) ≠ decide (b < 0) then checked (r + b) else return r

/-- There is a remainder of truncated division where there is a quotient. -/
lemma truncatedRemainder_eq (ha : Fits a) (hb : Fits b) (hzero : b ≠ 0) :
    truncatedRemainder a b =
      if a = least ∧ b = -1 then .error .overflow else .ok (a.tmod b) := by
  have hfits := fits_of_natAbs_lt hb (tdiv_tmod a hzero).2.1
  rw [truncatedRemainder, truncatedQuotient_eq ha hzero, checked, if_pos hfits]
  split_ifs <;> rfl

/-- **No number on the way is out of range**: where the quotient rounded toward zero is in range,
neither what it leaves nor what is corrected leads out of it. -/
theorem evaluateStepwise_eq (op : Arithmetic) (ha : Fits a) (hb : Fits b) :
    evaluateStepwise op a b = evaluate op a b := by
  cases op with
  | add | sub | mul => rfl
  | div =>
    by_cases hzero : b = 0
    · simp [evaluateStepwise, evaluate, divide, truncatedQuotient, hzero, bind, Except.bind]
    · simp only [evaluateStepwise, evaluate, divide, truncatedRemainder_eq ha hb hzero,
        truncatedQuotient_eq ha hzero]
      by_cases hleast : a = least ∧ b = -1
      · simp only [if_pos hleast]
        rfl
      · simp only [if_neg hleast, bind, Except.bind, pure, Except.pure]
        split
        · next habove => rw [checked, if_pos (fits_tdiv_sub_one ha hzero habove.1)]
        · rfl
  | mod =>
    by_cases hzero : b = 0
    · simp [evaluateStepwise, evaluate, remainder, truncatedRemainder, truncatedQuotient, hzero,
        bind, Except.bind]
    · simp only [evaluateStepwise, evaluate, remainder, truncatedRemainder_eq ha hb hzero,
        truncatedQuotient_eq ha hzero]
      by_cases hleast : a = least ∧ b = -1
      · simp only [if_pos hleast]
        rfl
      · have hdivision := isDivision_corrected a hzero
        simp only [if_neg hleast, bind, Except.bind, pure, Except.pure]
        split
        · next hmoved =>
          rw [if_pos hmoved] at hdivision
          rw [checked, if_pos (fits_of_natAbs_lt hb hdivision.sign_eq.2)]
        · rfl

end Integer

/-! ## Arithmetic on values -/

namespace Value

open Integer (Fits least IsDivision)

variable {a b q r n : Int}

/-- The result of arithmetic on integers, as a value. -/
lemma arithmetic_eq (op : Arithmetic) (ha : Fits a) (hb : Fits b) :
    arithmetic op (.int a) (.int b) =
      if op.divides ∧ b = 0 then .error .divisionByZero
      else if Fits (op.exact a b) ∧ ¬ (op = .mod ∧ a = least ∧ b = -1) then
        .ok (.int (op.exact a b))
      else .error (.integerOverflow op.symbol) := by
  simp only [arithmetic, Integer.evaluate_eq op ha hb]
  split_ifs <;> rfl

/-- A result is the exact one, and nothing was divided by zero. -/
lemma eq_exact_of_arithmetic {op : Arithmetic} (ha : Fits a) (hb : Fits b)
    (h : arithmetic op (.int a) (.int b) = .ok (.int n)) :
    n = op.exact a b ∧ (op.divides → b ≠ 0) := by
  rw [arithmetic_eq op ha hb] at h
  split_ifs at h with hzero hfits
  cases h
  exact ⟨rfl, fun hop hb => hzero ⟨hop, hb⟩⟩

/-- A quotient and a remainder belong together. -/
lemma isDivision_of_arithmetic (ha : Fits a) (hb : Fits b)
    (hq : arithmetic .div (.int a) (.int b) = .ok (.int q))
    (hr : arithmetic .mod (.int a) (.int b) = .ok (.int r)) : IsDivision a b q r := by
  obtain ⟨rfl, hzero⟩ := eq_exact_of_arithmetic ha hb hq
  obtain ⟨rfl, -⟩ := eq_exact_of_arithmetic ha hb hr
  have hdivision := Integer.isDivision_corrected a (hzero rfl)
  simp only [Arithmetic.exact]
  rwa [hdivision.sub_mul_floor_eq, hdivision.floor_eq]

/-- **Arithmetic is exact.**  For all integers of the language, nothing is divided by zero.
Otherwise the result is the sum, the difference, the product, the quotient rounded down or the
remainder that it leaves, provided that this is in range, and only if it is not there is an overflow
instead.  The one exception is the remainder of the least integer by `-1`, which is an overflow.

A quotient and a remainder belong together: the remainder is zero or has the sign of the divisor,
and is smaller.  No number on the way to a result is out of range. -/
theorem arithmetic_exact (op : Arithmetic) (ha : Fits a) (hb : Fits b) :
    (arithmetic op (.int a) (.int b) =
      if op.divides ∧ b = 0 then .error .divisionByZero
      else if Fits (op.exact a b) ∧ ¬ (op = .mod ∧ a = least ∧ b = -1) then
        .ok (.int (op.exact a b))
      else .error (.integerOverflow op.symbol)) ∧
    (∀ q r, arithmetic .div (.int a) (.int b) = .ok (.int q) →
      arithmetic .mod (.int a) (.int b) = .ok (.int r) →
        a = b * q + r ∧ (r = 0 ∨ r.sign = b.sign) ∧ r.natAbs < b.natAbs) ∧
    Integer.evaluateStepwise op a b = Integer.evaluate op a b := by
  refine ⟨arithmetic_eq op ha hb, fun q r hq hr => ?_, Integer.evaluateStepwise_eq op ha hb⟩
  have hdivision := isDivision_of_arithmetic ha hb hq hr
  exact ⟨hdivision.eq, hdivision.sign_eq⟩

/-- A negative dividend is rounded down, and its remainder is not negative. -/
theorem arithmetic_exact_negative :
    Fits (-7) ∧ Fits 2 ∧ arithmetic .mod (.int (-7)) (.int 2) = .ok (.int 1) ∧
      arithmetic .div (.int (-7)) (.int 2) = .ok (.int (-4)) ∧ (-7 : Int) = 2 * -4 + 1 := by
  have hmod : arithmetic .mod (.int (-7)) (.int 2) = .ok (.int 1) := by rfl
  have hdiv : arithmetic .div (.int (-7)) (.int 2) = .ok (.int (-4)) := by rfl
  have hexact := arithmetic_exact (a := -7) (b := 2) .mod (by decide) (by decide)
  exact ⟨by decide, by decide, hmod, hdiv, (hexact.2.1 (-4) 1 hdiv hmod).1⟩

/-- The least integer leaves nothing when it is divided by `-1`, but its remainder is an overflow.
-/
theorem not_arithmetic_exact_least :
    ¬ ∀ (op : Arithmetic) (a b : Int), Fits a → Fits b → ¬ (op.divides ∧ b = 0) →
      Fits (op.exact a b) → arithmetic op (.int a) (.int b) = .ok (.int (op.exact a b)) := by
  intro h
  have hexact : Arithmetic.exact .mod least (-1) = 0 :=
    (Integer.isDivision_corrected least (by decide)).sub_mul_floor_eq
  have hresult := h .mod least (-1) (by decide) (by decide) (by decide) (by rw [hexact]; decide)
  have hoverflow : arithmetic .mod (.int least) (.int (-1)) = .error (.integerOverflow "%") := by
    rfl
  rw [hoverflow] at hresult
  cases hresult

end Value

end ScriptMachine
