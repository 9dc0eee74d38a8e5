/-
This file proves that wrapping an integer to a machine word keeps its last 64 bits, so that sums and
products can be wrapped at any step, and changes only the integers that do not fit.
-/

import Mathlib.Data.Int.ModEq
import TrigAlgebra.DenseVector.Evaluation

namespace TrigAlgebra

/-- The forms in which a vector keeps integers. -/
inductive Storage where
  | signed
  | unsigned
  | unbounded
deriving DecidableEq

namespace Word

/-- The range of signed words. -/
theorem isSigned_iff {value : Int} : isSigned value = true ↔ -2 ^ 63 ≤ value ∧ value < 2 ^ 63 := by
  rw [isSigned, Bool.and_eq_true, decide_eq_true_eq, decide_eq_true_eq, signedBound]
  omega

/-- The range of unsigned words. -/
theorem isUnsigned_iff {value : Int} : isUnsigned value = true ↔ 0 ≤ value ∧ value < 2 ^ 64 := by
  rw [isUnsigned, Bool.and_eq_true, decide_eq_true_eq, decide_eq_true_eq, count]
  omega

theorem isSigned_wrapSigned (value : Int) : isSigned (wrapSigned value) = true := by
  rw [isSigned_iff, wrapSigned, signedBound, count]
  omega

theorem isUnsigned_wrapUnsigned (value : Int) : isUnsigned (wrapUnsigned value) = true := by
  rw [isUnsigned_iff, wrapUnsigned, count]
  omega

/-- What fits a signed word is not wrapped. -/
theorem wrapSigned_of_isSigned {value : Int} (fits : isSigned value = true) : wrapSigned value = value := by
  rw [isSigned_iff] at fits
  rw [wrapSigned, signedBound, count]
  omega

/-- What fits an unsigned word is not wrapped. -/
theorem wrapUnsigned_of_isUnsigned {value : Int} (fits : isUnsigned value = true) :
    wrapUnsigned value = value := by
  rw [isUnsigned_iff] at fits
  rw [wrapUnsigned, count]
  omega

/-- Wrapping loses a multiple of the number of words. -/
theorem wrapSigned_modEq (value : Int) : wrapSigned value ≡ value [ZMOD count] :=
  calc (value + signedBound) % count - signedBound
      ≡ value + signedBound - signedBound [ZMOD count] := (Int.mod_modEq _ _).sub_right _
    _ = value := by rw [Int.add_sub_cancel]

theorem wrapUnsigned_modEq (value : Int) : wrapUnsigned value ≡ value [ZMOD count] :=
  Int.mod_modEq value count

/-- A signed word depends only on the last 64 bits. -/
theorem wrapSigned_congr {value other : Int} (same : value ≡ other [ZMOD count]) :
    wrapSigned value = wrapSigned other := by
  have shifted : (value + signedBound) % count = (other + signedBound) % count := same.add_right _
  rw [wrapSigned, shifted, wrapSigned]

end Word

namespace Storage

/-- The storage can hold the integer as it is. -/
def holds : Storage → Int → Bool
  | .signed => Word.isSigned
  | .unsigned => Word.isUnsigned
  | .unbounded => fun _ => true

/-- The integer that is kept in place of another one. -/
def wrap : Storage → Int → Int
  | .signed => Word.wrapSigned
  | .unsigned => Word.wrapUnsigned
  | .unbounded => id

variable (storage : Storage) (value : Int)

/-- Whatever is wrapped can be held. -/
theorem holds_wrap : storage.holds (storage.wrap value) = true := by
  cases storage with
  | signed => exact Word.isSigned_wrapSigned value
  | unsigned => exact Word.isUnsigned_wrapUnsigned value
  | unbounded => rfl

/-- Wrapping loses a multiple of the number of words, or nothing. -/
theorem wrap_modEq : storage.wrap value ≡ value [ZMOD Word.count] := by
  cases storage with
  | signed => exact Word.wrapSigned_modEq value
  | unsigned => exact Word.wrapUnsigned_modEq value
  | unbounded => exact Int.ModEq.refl value

variable {storage value}

/-- What can be held is not wrapped. -/
theorem wrap_of_holds (fits : storage.holds value = true) : storage.wrap value = value := by
  cases storage with
  | signed => exact Word.wrapSigned_of_isSigned fits
  | unsigned => exact Word.wrapUnsigned_of_isUnsigned fits
  | unbounded => rfl

/-- Exactly the integers that fit stay what they are. -/
theorem wrap_eq_self_iff : storage.wrap value = value ↔ storage.holds value = true :=
  ⟨fun same => same ▸ storage.holds_wrap value, wrap_of_holds⟩

/-- A product and a sum that are wrapped one after the other give what wrapping once at the end does. -/
theorem wrap_step (storage : Storage) (result point entry : Int) :
    storage.wrap (storage.wrap (storage.wrap result * point) + entry) =
      storage.wrap (result * point + entry) := by
  have exact : storage.wrap (storage.wrap result * point) + entry ≡ result * point + entry
      [ZMOD Word.count] :=
    ((storage.wrap_modEq _).trans ((storage.wrap_modEq result).mul_right point)).add_right entry
  cases storage with
  | signed => exact Word.wrapSigned_congr exact
  | unsigned => exact exact
  | unbounded => rfl

end Storage

end TrigAlgebra
