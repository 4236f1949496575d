-- SUMMARY: Multiplication of machine words, as a build with overflow checks does it and as one without.
import Mathlib.Tactic.Common

/-!
# Overflow

A product that does not fit its word stops a build with overflow checks, and wraps
around in one without. `Profile.mul` is the product of two words below `size`;
`mul_eq_product_iff` says that it is the product of the numbers exactly if that fits.
-/

inductive Profile where
  | debug
  | release
  deriving DecidableEq, Repr

namespace Profile

/-- The product of two words below `size`; `none` is a panic. -/
def mul (profile : Profile) (size a b : Nat) : Option Nat :=
  if a * b < size then some (a * b)
  else
    match profile with
    | .debug => none
    | .release => some (a * b % size)

theorem mul_of_lt (profile : Profile) {size a b : Nat} (h : a * b < size) :
    profile.mul size a b = some (a * b) :=
  if_pos h

theorem mul_lt {profile : Profile} {size a b c : Nat} (h : profile.mul size a b = some c)
    (hsize : 0 < size) : c < size := by
  unfold mul at h
  split at h
  · next hlt => cases h; exact hlt
  · cases profile with
    | debug => cases h
    | release => cases h; exact Nat.mod_lt _ hsize

theorem mul_eq_product_iff (profile : Profile) {size a b : Nat} (hsize : 0 < size) :
    profile.mul size a b = some (a * b) ↔ a * b < size :=
  ⟨fun h => mul_lt h hsize, mul_of_lt profile⟩

theorem mul_one (profile : Profile) {size a : Nat} (h : a < size) :
    profile.mul size a 1 = some a := by
  rw [mul_of_lt profile (by rwa [Nat.mul_one]), Nat.mul_one]

end Profile
