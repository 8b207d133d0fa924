import Mathlib.Data.Nat.Bitwise
import Mathlib.Tactic

/-!
# Machine integers under two build profiles

Sums and products of machine integers are exact while they fit.  Where they do
not, the development profile stops the program and the release profile goes on
with the value modulo the size of the type.  Division stops both profiles when
the divisor is zero or the quotient does not fit.

`u64` values are `UInt64`, whose operations are the wrapping ones.  `i64` values
are integers in `I64.Fits`.  The last section is about page addresses: masking
with `!0xFFF` rounds down to a multiple of 4096.
-/

namespace OpenKernel

/-- A computation that returns has returned at each of its steps. -/
theorem bind_eq_ok_iff
    {ε α β : Type} {x : Except ε α} {f : α → Except ε β} {b : β} :
    (x >>= f) = .ok b ↔ ∃ a, x = .ok a ∧ f a = .ok b := by
  rcases x with e | a
  · simp [bind, Except.bind]
  · simp [bind, Except.bind]

theorem mapError_eq_ok_iff
    {ε ε' α : Type} {wrap : ε → ε'} {x : Except ε α} {a : α} :
    x.mapError wrap = .ok a ↔ x = .ok a := by
  cases x <;> simp [Except.mapError]

/-- How the program is built: with or without overflow checks. -/
inductive Profile where
  | dev
  | release
deriving DecidableEq, Repr

/-- The panic of an arithmetic operation. -/
inductive ArithPanic where
  | overflow
  | divisionByZero
deriving DecidableEq, Repr

section Unsigned

/-- A sum or product: `exact` is its exact value, `wrapped` its wrapping one. -/
def Profile.u64 (profile : Profile) (exact : Nat) (wrapped : UInt64) :
    Except ArithPanic UInt64 :=
  if exact < 2 ^ 64 then
    .ok wrapped
  else
    match profile with
    | .dev => .error .overflow
    | .release => .ok wrapped

def Profile.addU64 (profile : Profile) (a b : UInt64) : Except ArithPanic UInt64 :=
  profile.u64 (a.toNat + b.toNat) (a + b)

def Profile.mulU64 (profile : Profile) (a b : UInt64) : Except ArithPanic UInt64 :=
  profile.u64 (a.toNat * b.toNat) (a * b)

def Profile.subU64 (profile : Profile) (a b : UInt64) : Except ArithPanic UInt64 :=
  if b ≤ a then
    .ok (a - b)
  else
    match profile with
    | .dev => .error .overflow
    | .release => .ok (a - b)

/-- `saturating_sub`. -/
def saturatingSubU64 (a b : UInt64) : UInt64 :=
  if b ≤ a then a - b else 0

variable {profile : Profile} {a b c : UInt64}

/-- An operation that returns at all returns the wrapping value. -/
theorem Profile.u64_eq_ok
    {exact : Nat} {wrapped : UInt64}
    (h : profile.u64 exact wrapped = .ok c) :
    c = wrapped ∧ (profile = .dev → exact < 2 ^ 64) := by
  unfold Profile.u64 at h
  split at h
  · rename_i hfits
    cases h
    exact ⟨rfl, fun _ => hfits⟩
  · cases profile with
    | dev => cases h
    | release =>
        cases h
        exact ⟨rfl, fun hdev => by cases hdev⟩

theorem Profile.u64_of_lt
    {exact : Nat} {wrapped : UInt64}
    (h : exact < 2 ^ 64) :
    profile.u64 exact wrapped = .ok wrapped :=
  if_pos h

theorem Profile.dev_u64_of_le
    {exact : Nat} {wrapped : UInt64}
    (h : 2 ^ 64 ≤ exact) :
    Profile.dev.u64 exact wrapped = .error .overflow :=
  if_neg (Nat.not_lt_of_le h)

/-- Without overflow checks a sum or product is the wrapping one. -/
theorem Profile.release_u64
    (exact : Nat) (wrapped : UInt64) :
    Profile.release.u64 exact wrapped = .ok wrapped := by
  unfold Profile.u64
  split <;> rfl

theorem toNat_add_of_lt
    (h : a.toNat + b.toNat < 2 ^ 64) :
    (a + b).toNat = a.toNat + b.toNat := by
  rw [UInt64.toNat_add, Nat.mod_eq_of_lt h]

theorem toNat_mul_of_lt
    (h : a.toNat * b.toNat < 2 ^ 64) :
    (a * b).toNat = a.toNat * b.toNat := by
  rw [UInt64.toNat_mul, Nat.mod_eq_of_lt h]

theorem Profile.mulU64_of_lt
    (h : a.toNat * b.toNat < 2 ^ 64) :
    profile.mulU64 a b = .ok (a * b) ∧ (a * b).toNat = a.toNat * b.toNat :=
  ⟨Profile.u64_of_lt h, toNat_mul_of_lt h⟩

theorem Profile.addU64_of_lt
    (h : a.toNat + b.toNat < 2 ^ 64) :
    profile.addU64 a b = .ok (a + b) ∧ (a + b).toNat = a.toNat + b.toNat :=
  ⟨Profile.u64_of_lt h, toNat_add_of_lt h⟩

/-- A saturating difference is the difference of natural numbers. -/
@[simp]
theorem toNat_saturatingSubU64
    (a b : UInt64) :
    (saturatingSubU64 a b).toNat = a.toNat - b.toNat := by
  unfold saturatingSubU64
  by_cases hle : b ≤ a
  · rw [if_pos hle, UInt64.toNat_sub_of_le a b hle]
  · have hlt : a.toNat < b.toNat := UInt64.lt_iff_toNat_lt.1 (UInt64.not_le.1 hle)
    rw [if_neg hle, UInt64.toNat_zero]
    omega

theorem Profile.subU64_eq_ok
    (h : profile.subU64 a b = .ok c) :
    c = a - b := by
  simp only [Profile.subU64] at h
  split at h
  · cases h
    rfl
  · cases profile with
    | dev => cases h
    | release =>
        cases h
        rfl

end Unsigned

namespace I64

/-- The values of `i64`. -/
def Fits (v : Int) : Prop :=
  -2 ^ 63 ≤ v ∧ v < 2 ^ 63

instance : DecidablePred Fits :=
  fun _ => inferInstanceAs (Decidable (_ ∧ _))

/-- The value that the two's complement bits of an integer stand for. -/
def wrap (v : Int) : Int :=
  (v + 2 ^ 63) % 2 ^ 64 - 2 ^ 63

/-- A sum, difference or product with the given exact value. -/
def settle (profile : Profile) (exact : Int) : Except ArithPanic Int :=
  if Fits exact then
    .ok exact
  else
    match profile with
    | .dev => .error .overflow
    | .release => .ok (wrap exact)

/-- `a / b`, rounded towards zero. -/
def div (a b : Int) : Except ArithPanic Int :=
  if b = 0 then
    .error .divisionByZero
  else if a = -2 ^ 63 ∧ b = -1 then
    .error .overflow
  else
    .ok (a.tdiv b)

/-- `a % b`, with the sign of `a`; it stops where the quotient does. -/
def rem (a b : Int) : Except ArithPanic Int :=
  if b = 0 then
    .error .divisionByZero
  else if a = -2 ^ 63 ∧ b = -1 then
    .error .overflow
  else
    .ok (a.tmod b)

variable {a b : Int}

/-- The quotient of two `i64` values fits, but for one pair. -/
theorem fits_tdiv_iff
    (ha : Fits a) (hb : b ≠ 0) :
    Fits (a.tdiv b) ↔ ¬ (a = -2 ^ 63 ∧ b = -1) := by
  have hle := Int.natAbs_tdiv_le_natAbs a b
  unfold Fits at *
  constructor
  · rintro hfits ⟨rfl, rfl⟩
    revert hfits
    decide
  · intro hpair
    by_cases hmin : a = -2 ^ 63
    · have hone : b ≠ -1 := fun hb1 => hpair ⟨hmin, hb1⟩
      subst hmin
      by_cases hpos : b = 1
      · subst hpos
        decide
      · -- a divisor of absolute value two or more halves the quotient at least
        have htwo : 2 ≤ b.natAbs := by omega
        have hhalf : ((-2 ^ 63 : Int).tdiv b).natAbs ≤ (-2 ^ 63 : Int).natAbs / 2 := by
          rw [Int.natAbs_tdiv]
          exact Nat.div_le_div_left htwo (by decide)
        omega
    · omega

/-- A remainder of `i64` values fits. -/
theorem fits_tmod
    (ha : Fits a) :
    Fits (a.tmod b) := by
  have habs := Int.natAbs_tmod a b
  have hle : a.natAbs % b.natAbs ≤ a.natAbs := Nat.mod_le _ _
  unfold Fits at *
  by_cases hneg : 0 ≤ a
  · have hnonneg := Int.tmod_nonneg b hneg
    omega
  · have hnonneg := Int.tmod_nonneg b (show 0 ≤ -a by omega)
    rw [Int.neg_tmod] at hnonneg
    omega

end I64

section Pages

/-- `address & !0xFFF`. -/
def pageDown (address : UInt64) : UInt64 :=
  address &&& ~~~0xFFF

/-- Masking the low twelve bits rounds down to a multiple of 4096. -/
theorem toNat_pageDown
    (address : UInt64) :
    (pageDown address).toNat = address.toNat / 4096 * 4096 := by
  have hmask : (~~~(0xFFF : UInt64)).toNat = (2 ^ 52 - 1) * 2 ^ 12 := by decide
  have hlt := address.toNat_lt
  rw [pageDown, UInt64.toNat_and, hmask]
  apply Nat.eq_of_testBit_eq
  intro i
  have hpow : address.toNat / 4096 * 4096 = address.toNat / 2 ^ 12 * 2 ^ 12 := by norm_num
  rw [hpow, Nat.testBit_and, Nat.testBit_mul_two_pow, Nat.testBit_mul_two_pow,
    Nat.testBit_div_two_pow, Nat.testBit_two_pow_sub_one]
  by_cases hlow : 12 ≤ i
  · by_cases hhigh : i < 64
    · have hin : i - 12 < 52 := by omega
      simp [hlow, hin]
    · have hbit : address.toNat.testBit i = false := by
        apply Nat.testBit_lt_two_pow
        calc address.toNat < 2 ^ 64 := hlt
          _ ≤ 2 ^ i := Nat.pow_le_pow_right (by decide) (by omega)
      have hback : i - 12 + 12 = i := by omega
      simp [hlow, hbit, hback]
  · simp [hlow]

end Pages

end OpenKernel
