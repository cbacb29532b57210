import OulaServer.TimerQueue.Basic

/-!
# The clock

`Timestamp::getNow` in the machine's arithmetic: `tv_sec` is narrowed to the `int` `seconds`, the product with
`kMicroSecondsPerSecond` is one of two `int`s, and only the sum with `tv_usec` is one of 64 bits. The product is
therefore what decides: it fits for readings below 2148 s, and for no others.
-/

namespace OulaServer

/-- What `gettimeofday` returns. -/
structure Timeval where
  tvSec : BitVec 64
  tvUsec : BitVec 64
  sec_lt : tvSec.toNat < 2 ^ 31
  usec_lt : tvUsec.toNat < 10 ^ 6

namespace Timeval

/-- The microseconds since the epoch that the clock shows. -/
def micros (tv : Timeval) : Int := tv.tvSec.toNat * 10 ^ 6 + tv.tvUsec.toNat

/-- The order of `(tv_sec, tv_usec)`. -/
def Before (tv₀ tv₁ : Timeval) : Prop :=
  tv₀.tvSec.toNat < tv₁.tvSec.toNat ∨ tv₀.tvSec = tv₁.tvSec ∧ tv₀.tvUsec.toNat < tv₁.tvUsec.toNat

instance (tv₀ tv₁ : Timeval) : Decidable (tv₀.Before tv₁) := inferInstanceAs (Decidable (_ ∨ _))

theorem micros_lt_micros (tv₀ tv₁ : Timeval) : tv₀.micros < tv₁.micros ↔ tv₀.Before tv₁ := by
  have h₀ := tv₀.usec_lt
  have h₁ := tv₁.usec_lt
  unfold micros Before
  rw [← BitVec.toNat_inj]
  omega

end Timeval

namespace Timestamp

/-! ### `getNow` -/

/-- `int seconds = tv.tv_sec`. -/
def seconds (tv : Timeval) : BitVec 32 := tv.tvSec.setWidth 32

/-- `seconds*kMicroSecondsPerSecond`, of two `int`s. -/
def microSeconds (tv : Timeval) : BitVec 32 := seconds tv * BitVec.ofInt 32 kMicroSecondsPerSecond

def getNow (tv : Timeval) : Timestamp := ((microSeconds tv).signExtend 64 + tv.tvUsec).toInt

/-- `secondsSinceEpoch`. -/
def secondsSinceEpoch (t : Timestamp) : Int := t.tdiv kMicroSecondsPerSecond

/-- Each step of `getNow` has the value that its operands have as integers. -/
structure NoOverflow (tv : Timeval) : Prop where
  narrowing : (seconds tv).toInt = tv.tvSec.toInt
  product : ¬ (seconds tv).smulOverflow (BitVec.ofInt 32 kMicroSecondsPerSecond)
  sum : ¬ ((microSeconds tv).signExtend 64).saddOverflow tv.tvUsec

theorem ofInt_kMicroSecondsPerSecond : (BitVec.ofInt 32 kMicroSecondsPerSecond).toInt = 10 ^ 6 := by decide

theorem seconds_toInt (tv : Timeval) : (seconds tv).toInt = tv.tvSec.toNat := by
  have h := tv.sec_lt
  have hn : (seconds tv).toNat = tv.tvSec.toNat := by
    rw [seconds, BitVec.toNat_setWidth, Nat.mod_eq_of_lt (by omega)]
  rw [BitVec.toInt_eq_toNat_of_lt (by omega), hn]

theorem tvSec_toInt (tv : Timeval) : tv.tvSec.toInt = tv.tvSec.toNat := by
  have h := tv.sec_lt
  exact BitVec.toInt_eq_toNat_of_lt (by omega)

theorem tvUsec_toInt (tv : Timeval) : tv.tvUsec.toInt = tv.tvUsec.toNat := by
  have h := tv.usec_lt
  exact BitVec.toInt_eq_toNat_of_lt (by omega)

/-- The product wraps in 32 bits before it is widened. -/
theorem microSeconds_toInt (tv : Timeval) : (microSeconds tv).toInt = (tv.tvSec.toNat * 10 ^ 6 : Int).bmod (2 ^ 32) := by
  rw [microSeconds, BitVec.toInt_mul, seconds_toInt, ofInt_kMicroSecondsPerSecond]

theorem signExtend_toInt (tv : Timeval) : ((microSeconds tv).signExtend 64).toInt = (microSeconds tv).toInt :=
  BitVec.toInt_signExtend_of_le (by decide)

theorem microSeconds_bounds (tv : Timeval) : -2 ^ 31 ≤ (microSeconds tv).toInt ∧ (microSeconds tv).toInt < 2 ^ 31 :=
  ⟨(microSeconds tv).le_toInt, (microSeconds tv).toInt_lt⟩

theorem sum_not_overflow (tv : Timeval) : ¬ ((microSeconds tv).signExtend 64).saddOverflow tv.tvUsec := by
  have h := microSeconds_bounds tv
  have hu := tv.usec_lt
  simp only [BitVec.saddOverflow, signExtend_toInt, tvUsec_toInt, Bool.or_eq_true, decide_eq_true_eq]
  omega

theorem getNow_eq (tv : Timeval) : getNow tv = (tv.tvSec.toNat * 10 ^ 6 : Int).bmod (2 ^ 32) + tv.tvUsec.toNat := by
  rw [getNow, BitVec.toInt_add_of_not_saddOverflow (sum_not_overflow tv), signExtend_toInt, tvUsec_toInt,
    microSeconds_toInt]

/-! ### Below 2148 seconds -/

theorem product_fits (tv : Timeval) :
    ¬ (seconds tv).smulOverflow (BitVec.ofInt 32 kMicroSecondsPerSecond) ↔ tv.tvSec.toNat ≤ 2147 := by
  simp only [BitVec.smulOverflow, seconds_toInt, ofInt_kMicroSecondsPerSecond, Bool.or_eq_true, decide_eq_true_eq]
  omega

theorem noOverflow_iff (tv : Timeval) : NoOverflow tv ↔ tv.tvSec.toNat ≤ 2147 := by
  constructor
  · intro h
    exact (product_fits tv).1 h.product
  · intro h
    exact ⟨by rw [seconds_toInt, tvSec_toInt], (product_fits tv).2 h, sum_not_overflow tv⟩

/-- The wrapped product is below `2 ^ 31`, which the true one is not from 2148 s on. -/
theorem getNow_eq_micros (tv : Timeval) : getNow tv = tv.micros ↔ tv.tvSec.toNat ≤ 2147 := by
  rw [getNow_eq, Timeval.micros, Int.add_left_inj]
  constructor
  · intro h
    have hlt : (tv.tvSec.toNat * 10 ^ 6 : Int).bmod (2 ^ 32) < (2 ^ 32 + 1) / 2 := Int.bmod_lt (by decide)
    omega
  · intro h
    apply Int.bmod_eq_of_le <;> omega

theorem secondsSinceEpoch_micros (tv : Timeval) : secondsSinceEpoch tv.micros = tv.tvSec.toNat := by
  have h := tv.usec_lt
  have hk : kMicroSecondsPerSecond = 10 ^ 6 := by decide
  rw [secondsSinceEpoch, Timeval.micros, hk, Int.tdiv_eq_ediv_of_nonneg (by omega)]
  omega

/-- `when.microSecondsSinceEpoch() - Timestamp::getNow().microSecondsSinceEpoch()` of `howMuchTimeFromNow`, in
`int64_t`. -/
def difference (t now : Timestamp) : Int := (BitVec.ofInt 64 t - BitVec.ofInt 64 now).toInt

theorem difference_eq {t now : Int} (ht : -2 ^ 62 ≤ t ∧ t < 2 ^ 62) (hn : -2 ^ 62 ≤ now ∧ now < 2 ^ 62) :
    difference t now = t - now := by
  have h₁ : (BitVec.ofInt 64 t).toInt = t := BitVec.toInt_ofInt_eq_self (by decide) (by omega) (by omega)
  have h₂ : (BitVec.ofInt 64 now).toInt = now := BitVec.toInt_ofInt_eq_self (by decide) (by omega) (by omega)
  rw [difference, BitVec.toInt_sub, h₁, h₂]
  apply Int.bmod_eq_of_le <;> omega

theorem howMuchTimeFromNow_difference {t now : Int} (ht : -2 ^ 62 ≤ t ∧ t < 2 ^ 62)
    (hn : -2 ^ 62 ≤ now ∧ now < 2 ^ 62) :
    howMuchTimeFromNow t now =
      let microseconds := if difference t now < 100 then 100 else difference t now
      (microseconds.tdiv kMicroSecondsPerSecond, microseconds.tmod kMicroSecondsPerSecond * 1000) := by
  rw [difference_eq ht hn]
  rfl

/-- A reading lies far inside `int64_t`, so that differences of two do not wrap. -/
theorem getNow_bounds (tv : Timeval) : (-2 ^ 62 : Int) ≤ getNow tv ∧ getNow tv < (2 ^ 62 : Int) := by
  have h := microSeconds_bounds tv
  have hu := tv.usec_lt
  rw [microSeconds_toInt] at h
  rw [getNow_eq]
  constructor
  · omega
  · show (tv.tvSec.toNat * 10 ^ 6 : Int).bmod (2 ^ 32) + (tv.tvUsec.toNat : Int) < (2 ^ 62 : Int)
    omega

theorem difference_getNow (tv₀ tv₁ : Timeval) : difference (getNow tv₁) (getNow tv₀) = getNow tv₁ - getNow tv₀ :=
  difference_eq (getNow_bounds tv₁) (getNow_bounds tv₀)

/-! ### Two readings -/

/-- One reading is what the clock shows. -/
structure Exact (tv : Timeval) : Prop where
  noOverflow : NoOverflow tv
  micros : getNow tv = tv.micros
  seconds : secondsSinceEpoch (getNow tv) = tv.tvSec.toNat

/-- Two readings are what the clock shows, come in its order, and differ by the time between them. -/
structure ExactPair (tv₀ tv₁ : Timeval) : Prop where
  first : Exact tv₀
  second : Exact tv₁
  increasing : tv₀.Before tv₁ ↔ getNow tv₀ < getNow tv₁
  elapsed : difference (getNow tv₁) (getNow tv₀) = tv₁.micros - tv₀.micros

theorem exact_of_le {tv : Timeval} (h : tv.tvSec.toNat ≤ 2147) : Exact tv := by
  have hm : getNow tv = tv.micros := (getNow_eq_micros tv).2 h
  refine ⟨(noOverflow_iff tv).2 h, hm, ?_⟩
  rw [hm]
  exact secondsSinceEpoch_micros tv

theorem exactPair_iff (tv₀ tv₁ : Timeval) :
    ExactPair tv₀ tv₁ ↔ tv₀.tvSec.toNat ≤ 2147 ∧ tv₁.tvSec.toNat ≤ 2147 := by
  constructor
  · intro h
    exact ⟨(getNow_eq_micros tv₀).1 h.first.micros, (getNow_eq_micros tv₁).1 h.second.micros⟩
  · rintro ⟨h₀, h₁⟩
    have e₀ := exact_of_le h₀
    have e₁ := exact_of_le h₁
    refine ⟨e₀, e₁, ?_, ?_⟩
    · rw [e₀.micros, e₁.micros]
      exact (Timeval.micros_lt_micros tv₀ tv₁).symm
    · rw [difference_getNow, e₀.micros, e₁.micros]

/-- From 1700001742 s to 1700001743 s the clock goes back by more than an hour. -/
theorem getNow_goes_back :
    let tv₀ : Timeval := ⟨1700001742, 0, by decide, by decide⟩
    let tv₁ : Timeval := ⟨1700001743, 0, by decide, by decide⟩
    tv₀.Before tv₁ ∧ getNow tv₁ < getNow tv₀ ∧ ¬ NoOverflow tv₀ ∧ ¬ ExactPair tv₀ tv₁ := by
  intro tv₀ tv₁
  refine ⟨by decide, by decide, ?_, ?_⟩
  · rw [noOverflow_iff]
    decide
  · intro h
    exact absurd h.first.micros (by decide)

end Timestamp

end OulaServer
