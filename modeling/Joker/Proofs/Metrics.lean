/-
The metric functions as functions of their arguments.

Rounding and clamping are monotone, so the transmission quality grows with
each factor (`calculate_tq_mono`), it never exceeds `tq_max`
(`calculate_tq_le`), and with multipliers of at most one the cast loses
nothing (`calculate_tq_toNat`): the product is at most `255 * 255 / tq_max`,
below 255 where `tq_max` is above it. The link quality is the share
`(tq_max - penalty) / tq_max` of it (`calculate_joker_lq_eq`).
-/
import Joker.Model.Routing
import Mathlib.Algebra.Order.Field.Basic
import Mathlib.Tactic.FieldSimp
import Mathlib.Tactic.GCongr
import Mathlib.Tactic.Linarith
import Mathlib.Tactic.Positivity

namespace Joker

-- ================================================== clamping and rounding

variable {lo hi p q : Rat}

theorem le_clamp (h : lo ≤ hi) : lo ≤ clamp q lo hi := by
  unfold clamp
  split
  · exact le_refl lo
  · next hlo =>
    split
    · exact h
    · exact not_lt.mp hlo

theorem clamp_le (h : lo ≤ hi) : clamp q lo hi ≤ hi := by
  unfold clamp
  split
  · exact h
  · split
    · exact le_refl hi
    · next hhi => exact not_lt.mp hhi

theorem clamp_of_mem (hlo : lo ≤ q) (hhi : q ≤ hi) : clamp q lo hi = q := by
  unfold clamp
  rw [if_neg (not_lt.mpr hlo), if_neg (not_lt.mpr hhi)]

/-- Clamping does not go above the value, or the lower bound. -/
theorem clamp_le_max : clamp q lo hi ≤ max q lo := by
  unfold clamp
  split
  · exact le_max_right q lo
  · split
    · next hhi => exact le_max_of_le_left (le_of_lt hhi)
    · exact le_max_left q lo

theorem clamp_mono (h : lo ≤ hi) (hpq : p ≤ q) :
    clamp p lo hi ≤ clamp q lo hi := by
  by_cases hp : p < lo
  · have hlow : clamp p lo hi = lo := by
      unfold clamp
      rw [if_pos hp]
    rw [hlow]
    exact le_clamp h
  · by_cases hq : hi < q
    · have hhigh : clamp q lo hi = hi := by
        unfold clamp
        rw [if_neg (not_lt.mpr (h.trans (le_of_lt hq))), if_pos hq]
      rw [hhigh]
      exact clamp_le h
    · have hlo := not_lt.mp hp
      have hhi := not_lt.mp hq
      rw [clamp_of_mem hlo (hpq.trans hhi), clamp_of_mem (hlo.trans hpq) hhi]
      exact hpq

theorem lround_mono (hpq : p ≤ q) : lround p ≤ lround q := by
  unfold lround
  by_cases hp : 0 ≤ p
  · rw [if_pos hp, if_pos (hp.trans hpq)]
    exact Int.floor_le_floor (by linarith)
  · rw [if_neg hp]
    have hneg : 0 ≤ ⌊-p + 1 / 2⌋ := Int.floor_nonneg.mpr (by linarith)
    split
    · next hq =>
      have hpos : 0 ≤ ⌊q + 1 / 2⌋ := Int.floor_nonneg.mpr (by linarith)
      omega
    · have hle : ⌊-q + 1 / 2⌋ ≤ ⌊-p + 1 / 2⌋ :=
        Int.floor_le_floor (by linarith)
      omega

/-- Whole numbers are not rounded. -/
theorem lround_natCast (n : Nat) : lround (n : Rat) = n := by
  unfold lround
  rw [if_pos (Nat.cast_nonneg n), Int.floor_eq_iff]
  constructor
  · simp
  · push_cast
    linarith

/-- The cast to a byte keeps a byte. -/
theorem toNat_ofInt {z : Int} (h0 : 0 ≤ z) (h : z < 256) :
    ((UInt8.ofInt z).toNat : Int) = z := by
  unfold UInt8.ofInt
  rw [UInt8.toNat_ofNat']
  omega

-- =================================================== transmission quality

variable {tq_local tq_recv tq_local' tq_recv' : UInt8}
  {f_asym hop_penalty f_asym' hop_penalty' : Rat} {tq_max : UInt16}

/-- The quality before it is clamped and rounded. -/
def scaled_tq (tq_local tq_recv : UInt8) (f_asym hop_penalty : Rat)
    (tq_max : UInt16) : Rat :=
  (tq_local.toNat : Rat) / tq_max.toNat * ((tq_recv.toNat : Rat) / tq_max.toNat)
    * f_asym * hop_penalty * tq_max.toNat

/-- What `calculate_tq` casts. -/
def rounded_tq (tq_local tq_recv : UInt8) (f_asym hop_penalty : Rat)
    (tq_max : UInt16) : Int :=
  lround (clamp (scaled_tq tq_local tq_recv f_asym hop_penalty tq_max) 0
    tq_max.toNat)

theorem calculate_tq_eq :
    calculate_tq tq_local tq_recv f_asym hop_penalty tq_max
      = UInt8.ofInt (rounded_tq tq_local tq_recv f_asym hop_penalty tq_max) :=
  rfl

variable (tq_local tq_recv f_asym hop_penalty tq_max) in
theorem rounded_tq_nonneg :
    0 ≤ rounded_tq tq_local tq_recv f_asym hop_penalty tq_max := by
  have hzero : lround 0 = 0 := lround_natCast 0
  rw [← hzero]
  exact lround_mono (le_clamp (Nat.cast_nonneg _))

variable (tq_local tq_recv f_asym hop_penalty tq_max) in
theorem rounded_tq_le :
    rounded_tq tq_local tq_recv f_asym hop_penalty tq_max ≤ tq_max.toNat := by
  rw [← lround_natCast]
  exact lround_mono (clamp_le (Nat.cast_nonneg _))

/-- Whatever the multipliers, the quality does not exceed `tq_max`. -/
theorem calculate_tq_le :
    (calculate_tq tq_local tq_recv f_asym hop_penalty tq_max).toNat
      ≤ tq_max.toNat := by
  have hle := rounded_tq_le tq_local tq_recv f_asym hop_penalty tq_max
  by_cases hbyte : tq_max.toNat < 256
  · rw [calculate_tq_eq]
    have hcast := toNat_ofInt (rounded_tq_nonneg tq_local tq_recv f_asym
      hop_penalty tq_max) (by omega)
    omega
  · have hlt := (calculate_tq tq_local tq_recv f_asym hop_penalty
      tq_max).toNat_lt
    omega

/-- The multipliers are shares. -/
structure Multipliers (f_asym hop_penalty : Rat) : Prop where
  f_asym_nonneg : 0 ≤ f_asym
  f_asym_le : f_asym ≤ 1
  hop_penalty_nonneg : 0 ≤ hop_penalty
  hop_penalty_le : hop_penalty ≤ 1

theorem scaled_tq_mono (h0 : 0 ≤ f_asym) (h0' : 0 ≤ hop_penalty)
    (hlocal : tq_local ≤ tq_local') (hrecv : tq_recv ≤ tq_recv')
    (hf : f_asym ≤ f_asym') (hh : hop_penalty ≤ hop_penalty') :
    scaled_tq tq_local tq_recv f_asym hop_penalty tq_max
      ≤ scaled_tq tq_local' tq_recv' f_asym' hop_penalty' tq_max := by
  have hl : (tq_local.toNat : Rat) ≤ tq_local'.toNat := Nat.cast_le.mpr hlocal
  have hr : (tq_recv.toNat : Rat) ≤ tq_recv'.toNat := Nat.cast_le.mpr hrecv
  have hf0 := h0.trans hf
  unfold scaled_tq
  gcongr

/-- With shares for multipliers the product is small. -/
theorem scaled_tq_le (hm : Multipliers f_asym hop_penalty)
    (hmax : 255 < tq_max.toNat) :
    scaled_tq tq_local tq_recv f_asym hop_penalty tq_max ≤ (255 : Nat) := by
  have hM : (255 : Rat) < tq_max.toNat := by exact_mod_cast hmax
  have hbyte : ∀ b : UInt8, b ≤ 255 := fun b =>
    UInt8.le_iff_toNat_le.mpr (Nat.le_of_lt_succ b.toNat_lt)
  have hone : scaled_tq tq_local tq_recv f_asym hop_penalty tq_max
      ≤ scaled_tq 255 255 1 1 tq_max :=
    scaled_tq_mono hm.f_asym_nonneg hm.hop_penalty_nonneg (hbyte _) (hbyte _)
      hm.f_asym_le hm.hop_penalty_le
  refine hone.trans ?_
  show (255 : Rat) / tq_max.toNat * (255 / tq_max.toNat) * 1 * 1 * tq_max.toNat
    ≤ 255
  have hpos : (0 : Rat) < tq_max.toNat := by linarith
  have heq : (255 : Rat) / tq_max.toNat * (255 / tq_max.toNat) * 1 * 1
      * tq_max.toNat = 255 * (255 / tq_max.toNat) := by
    field_simp
  have hshare : (255 : Rat) / tq_max.toNat ≤ 1 := by
    rw [div_le_one hpos]
    exact le_of_lt hM
  rw [heq]
  linarith

/-- With shares for multipliers the cast keeps the rounded quality. -/
theorem calculate_tq_toNat (hm : Multipliers f_asym hop_penalty) :
    ((calculate_tq tq_local tq_recv f_asym hop_penalty tq_max).toNat : Int)
      = rounded_tq tq_local tq_recv f_asym hop_penalty tq_max := by
  rw [calculate_tq_eq]
  apply toNat_ofInt (rounded_tq_nonneg _ _ _ _ _)
  by_cases hmax : 255 < tq_max.toNat
  · have hclamp : clamp (scaled_tq tq_local tq_recv f_asym hop_penalty tq_max) 0
        tq_max.toNat ≤ (255 : Nat) :=
      clamp_le_max.trans
        (max_le (scaled_tq_le hm hmax) (Nat.cast_nonneg _))
    have hround := lround_mono hclamp
    rw [lround_natCast] at hround
    unfold rounded_tq
    omega
  · have hle := rounded_tq_le tq_local tq_recv f_asym hop_penalty tq_max
    omega

/-- The quality grows with every factor. -/
theorem calculate_tq_mono (hm : Multipliers f_asym hop_penalty)
    (hm' : Multipliers f_asym' hop_penalty') (hlocal : tq_local ≤ tq_local')
    (hrecv : tq_recv ≤ tq_recv') (hf : f_asym ≤ f_asym')
    (hh : hop_penalty ≤ hop_penalty') :
    calculate_tq tq_local tq_recv f_asym hop_penalty tq_max
      ≤ calculate_tq tq_local' tq_recv' f_asym' hop_penalty' tq_max := by
  rw [UInt8.le_iff_toNat_le]
  have hround : rounded_tq tq_local tq_recv f_asym hop_penalty tq_max
      ≤ rounded_tq tq_local' tq_recv' f_asym' hop_penalty' tq_max :=
    lround_mono (clamp_mono (Nat.cast_nonneg _)
      (scaled_tq_mono hm.f_asym_nonneg hm.hop_penalty_nonneg
        hlocal hrecv hf hh))
  rw [← calculate_tq_toNat hm, ← calculate_tq_toNat hm'] at hround
  omega

-- ============================================================ link quality

theorem distance_penalty_le (fade_margin_db : Rat) :
    (distance_penalty fade_margin_db).toNat ≤ 5 := by
  unfold distance_penalty
  split
  · decide
  · split <;> decide

theorem distance_penalty_pos (fade_margin_db : Rat) :
    0 < (distance_penalty fade_margin_db).toNat := by
  unfold distance_penalty
  split
  · decide
  · split <;> decide

variable {tq tq' d d' : UInt8}

theorem calculate_joker_lq_of_pos (hmax : tq_max ≠ 0) :
    calculate_joker_lq tq d tq_max
      = clamp ((tq.toNat : Rat) * ((tq_max.toNat : Rat) - d.toNat)
          / tq_max.toNat) 0 tq_max.toNat := by
  unfold calculate_joker_lq
  rw [if_neg hmax]

theorem calculate_joker_lq_nonneg (hmax : tq_max ≠ 0) :
    0 ≤ calculate_joker_lq tq d tq_max := by
  rw [calculate_joker_lq_of_pos hmax]
  exact le_clamp (Nat.cast_nonneg _)

theorem toNat_pos_of_ne (hmax : tq_max ≠ 0) : (0 : Rat) < tq_max.toNat := by
  have hne : tq_max.toNat ≠ 0 := fun h => hmax (UInt16.toNat_inj.mp h)
  exact_mod_cast Nat.pos_of_ne_zero hne

/-- The penalty takes away. -/
theorem calculate_joker_lq_le (hmax : tq_max ≠ 0) :
    calculate_joker_lq tq d tq_max ≤ (tq.toNat : Rat) := by
  rw [calculate_joker_lq_of_pos hmax]
  refine clamp_le_max.trans (max_le ?_ (Nat.cast_nonneg _))
  rw [div_le_iff₀ (toNat_pos_of_ne hmax)]
  gcongr
  linarith [Nat.cast_nonneg (α := Rat) d.toNat]

/-- The link quality grows with the transmission quality: where the
penalty is above `tq_max` it is zero. -/
theorem calculate_joker_lq_mono (hmax : tq_max ≠ 0) (htq : tq ≤ tq') :
    calculate_joker_lq tq d tq_max ≤ calculate_joker_lq tq' d tq_max := by
  have ht : (tq.toNat : Rat) ≤ tq'.toNat := Nat.cast_le.mpr htq
  by_cases hd : (d.toNat : Rat) ≤ tq_max.toNat
  · rw [calculate_joker_lq_of_pos hmax, calculate_joker_lq_of_pos hmax]
    apply clamp_mono (Nat.cast_nonneg _)
    have hnum : (0 : Rat) ≤ (tq_max.toNat : Rat) - d.toNat := by linarith
    gcongr
  · have hzero : calculate_joker_lq tq d tq_max ≤ 0 := by
      rw [calculate_joker_lq_of_pos hmax]
      refine clamp_le_max.trans (max_le ?_ (le_refl _))
      have hneg : (tq_max.toNat : Rat) - d.toNat ≤ 0 := by linarith
      exact div_nonpos_of_nonpos_of_nonneg
        (mul_nonpos_of_nonneg_of_nonpos (Nat.cast_nonneg _) hneg)
        (Nat.cast_nonneg _)
    exact hzero.trans (calculate_joker_lq_nonneg hmax)

/-- A penalty below `tq_max` takes its share, and nothing is clamped. -/
theorem calculate_joker_lq_eq (hd : d.toNat < tq_max.toNat)
    (htq : tq.toNat ≤ tq_max.toNat) :
    calculate_joker_lq tq d tq_max
      = (tq.toNat : Rat) * ((tq_max.toNat : Rat) - d.toNat) / tq_max.toNat := by
  have hmax : tq_max ≠ 0 := by
    intro h
    rw [h] at hd
    exact absurd hd (Nat.not_lt_zero _)
  have hdM : (d.toNat : Rat) < tq_max.toNat := Nat.cast_lt.mpr hd
  have htM : (tq.toNat : Rat) ≤ tq_max.toNat := Nat.cast_le.mpr htq
  rw [calculate_joker_lq_of_pos hmax]
  have hnum : (0 : Rat) ≤ (tq_max.toNat : Rat) - d.toNat := by linarith
  apply clamp_of_mem
  · positivity
  · rw [div_le_iff₀ (toNat_pos_of_ne hmax)]
    gcongr
    linarith [Nat.cast_nonneg (α := Rat) d.toNat]

end Joker
