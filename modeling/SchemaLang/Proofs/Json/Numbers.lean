import Mathlib.Algebra.Order.Ring.Int
import Mathlib.Order.Compare
import SchemaLang.Json.Value

/-!
# Binary64 numbers in documents

A binary64 number that is whole and small is written as an integer. This changes neither
its order to other numbers nor its identity: numbers are compared by their exact values, and
of two numbers written this way the values alone tell whether they are the same.
-/

namespace SchemaLang

open Double Option

namespace Double

/-- There is at least one unit to one. -/
theorem unitsPerOne_pos : (0 : Int) < (unitsPerOne : Int) := by
  unfold unitsPerOne
  generalize 1074 = power
  exact Int.natCast_pos.mpr (Nat.two_pow_pos power)

/-- A whole number is its whole part, in units. -/
theorem signedUnits_of_whole {negative : Bool} {units : Nat}
    (whole : (finite negative units).isWhole = true) :
    signedUnits negative units = (finite negative units).truncated * (unitsPerOne : Int) := by
  have multiple : units / unitsPerOne * unitsPerOne = units := by
    simp only [isWhole, beq_iff_eq] at whole
    exact Nat.div_mul_cancel (Nat.dvd_of_mod_eq_zero whole)
  cases negative with
  | false =>
    simp only [signedUnits, truncated, Bool.false_eq_true, if_false]
    exact_mod_cast multiple.symm
  | true =>
    simp only [signedUnits, truncated, if_true, neg_mul, neg_inj]
    exact_mod_cast multiple.symm

/-- The order of finite numbers is that of their units. -/
theorem order_finite (negative otherNegative : Bool) (units otherUnits : Nat) :
    JsonNumber.order (.double (finite negative units)) (.double (finite otherNegative otherUnits)) =
      some (compare (signedUnits negative units) (signedUnits otherNegative otherUnits)) := by
  simp only [JsonNumber.order, lt, same, decide_eq_true_eq, beq_iff_eq]
  rcases lt_trichotomy (signedUnits negative units) (signedUnits otherNegative otherUnits) with
    below | equal | above
  · rw [if_pos below, compare_lt_iff_lt.mpr below]
  · rw [if_neg (by omega), if_neg (by omega), if_pos equal, compare_eq_iff_eq.mpr equal]
  · rw [if_neg (by omega), if_pos above, compare_gt_iff_gt.mpr above]

end Double

variable {bound : Double}

namespace JsonNumber

/-- Multiples of the units of one are ordered like their factors. -/
theorem compare_mul_units (first second : Int) :
    compare (first * (unitsPerOne : Int)) (second * (unitsPerOne : Int)) =
      compare first second := by
  have positive := unitsPerOne_pos
  rcases lt_trichotomy first second with below | equal | above
  · rw [compare_lt_iff_lt.mpr below,
      compare_lt_iff_lt.mpr ((Int.mul_lt_mul_right positive).mpr below)]
  · rw [equal, compare_eq_iff_eq.mpr rfl, compare_eq_iff_eq.mpr rfl]
  · rw [compare_gt_iff_gt.mpr above,
      compare_gt_iff_gt.mpr ((Int.mul_lt_mul_right positive).mpr above)]

/-- A whole number is ordered to others like the integer that it is. -/
theorem order_integer_of_whole {negative : Bool} {units : Nat}
    (whole : (finite negative units).isWhole = true) (number : JsonNumber) :
    number.order (.integer (finite negative units).truncated) =
      number.order (.double (.finite negative units)) := by
  have exactUnits := signedUnits_of_whole whole
  cases number with
  | integer value =>
    simp only [order, compareInt, exactUnits, compare_mul_units, map_some, some.injEq]
    exact Std.OrientedCmp.eq_swap
  | double value =>
    cases value with
    | finite otherNegative otherUnits =>
      rw [order_finite, exactUnits]
      rfl
    | infinite otherNegative =>
      cases otherNegative with
      | false | true => rfl
    | nan => rfl

/-- Writing a bound as a number of a document does not change how numbers compare to it. -/
theorem order_ofDouble (isFinite : bound.isFinite = true)
    (number : JsonNumber) : number.order (.ofDouble bound) = number.order (.double bound) := by
  unfold ofDouble
  split
  · rename_i small
    cases bound with
    | finite negative units =>
      exact order_integer_of_whole (Bool.and_eq_true_iff.mp small).1 number
    | infinite _ | nan => cases isFinite
  · rfl

/-- Comparing two numbers the other way round gives the opposite order. -/
theorem order_swap (first second : JsonNumber) :
    first.order second = (second.order first).map Ordering.swap := by
  cases first with
  | integer value =>
    cases second with
    | integer other =>
      simp only [order, map_some, some.injEq]
      exact Std.OrientedCmp.eq_swap
    | double other => rfl
  | double value =>
    cases second with
    | integer other =>
      simp only [order, map_map]
      cases value.compareInt other with
      | none => rfl
      | some found => cases found <;> rfl
    | double other =>
      cases value with
      | finite negative units =>
        cases other with
        | finite otherNegative otherUnits =>
          rw [order_finite, order_finite]
          simp only [map_some, some.injEq]
          exact Std.OrientedCmp.eq_swap
        | infinite otherNegative => cases otherNegative <;> rfl
        | nan => rfl
      | infinite negative =>
        cases other with
        | finite _ _ | nan => cases negative <;> rfl
        | infinite otherNegative => cases negative <;> cases otherNegative <;> rfl
      | nan => cases other <;> rfl

theorem order_eq_comm {first second : JsonNumber} (equal : first.order second = some .eq) :
    second.order first = some .eq := by
  rw [order_swap, equal]
  rfl
/-- A number that is written as it is stands for no other number. -/
theorem same_eq {other : Double} (large : (bound.isWhole &&
    bound.magnitudeBelow (Nat.pow 2 53)) = false) (same : other.same bound = true) :
    other = bound := by
  cases other with
  | finite otherNegative otherUnits =>
    cases bound with
    | finite negative units =>
      have equal : Double.signedUnits otherNegative otherUnits =
          Double.signedUnits negative units := by simpa [Double.same] using same
      have nonzero : units ≠ 0 := by
        rintro rfl
        have positive := Double.unitsPerOne_pos
        simp [Double.isWhole, Double.magnitudeBelow] at large
        omega
      cases otherNegative <;> cases negative <;>
        simp only [Double.signedUnits, if_true, Bool.false_eq_true, if_false] at equal <;>
        first
          | (obtain rfl : otherUnits = units := by omega
             rfl)
          | omega
    | infinite _ | nan => cases same
  | infinite otherNegative =>
    cases bound with
    | finite _ _ | nan => cases same
    | infinite negative =>
      rw [show otherNegative = negative by simpa [Double.same] using same]
  | nan => cases bound <;> cases same

/-- A number that is written for a bound is identical only to itself. -/
theorem identical_ofDouble {number : JsonNumber}
    (same : number.identical (.ofDouble bound) = true) : number = .ofDouble bound := by
  unfold ofDouble at same ⊢
  split at same
  · rename_i small
    rw [if_pos small]
    cases number with
    | integer value =>
      rw [show value = bound.truncated by simpa [identical] using same]
    | double value => cases same
  · rename_i large
    rw [if_neg large]
    cases number with
    | integer value => cases same
    | double value => rw [same_eq (by simpa using large) same]

end JsonNumber

end SchemaLang
