/-
Is the order of the candidates the order of their turns?

The coordinator waits `twait * (priority - 1)`, a 32-bit product, so the
answer depends on the configuration. As long as the last position's
product fits 32 bits the delays are exact, and with a positive `twait_ms`
they grow along the list. Beyond that they wrap, and the first position
that wraps is due before the one ahead of it (`wrapped_lt`): a listed
candidate overtakes one of higher priority. Exactness, growth and turn
order therefore stand and fall together.
-/
import Joker.Proofs.BackupCandidates

namespace Joker

-- =========================================================== wrap-around

/-- Multiples of a number below the modulus reach it in single steps. -/
theorem exists_first_wrap {t W : Nat} (ht : t < W) :
    ∀ n, W ≤ t * n → ∃ k, 1 ≤ k ∧ k < n ∧ t * k < W ∧ W ≤ t * (k + 1) := by
  intro n
  induction n with
  | zero => intro h; omega
  | succ n ih =>
      intro h
      by_cases hn : W ≤ t * n
      · obtain ⟨k, hk, hkn, hlt, hle⟩ := ih hn
        exact ⟨k, hk, by omega, hlt, hle⟩
      · refine ⟨n, ?_, Nat.lt_succ_self n, Nat.not_le.mp hn, h⟩
        rcases Nat.eq_zero_or_pos n with rfl | hpos
        · omega
        · exact hpos

/-- The first multiple that wraps is below the last that does not. -/
theorem wrapped_lt {t W k : Nat} (ht : t < W) (hlt : t * k < W)
    (hle : W ≤ t * (k + 1)) : t * (k + 1) % W < t * k := by
  rw [Nat.mul_succ] at hle ⊢
  rw [Nat.mod_eq_sub_mod hle, Nat.mod_eq_of_lt (by omega)]
  omega

theorem milliseconds_le_iff (m n : Nat) :
    milliseconds m ≤ milliseconds n ↔ m ≤ n := by
  show (m : Int) * 1000000 ≤ (n : Int) * 1000000 ↔ m ≤ n
  omega

theorem milliseconds_lt_iff (m n : Nat) :
    milliseconds m < milliseconds n ↔ m < n := by
  show (m : Int) * 1000000 < (n : Int) * 1000000 ↔ m < n
  omega

-- ===================================================== positions, delays

/-- The node stands at position `p` of the candidates: first, if the list
of the others does not name it, and `2 + i` at its index `i`. -/
def AtPosition (header : JokerHeader) (m : MacAddress) (p : Nat) : Prop :=
  (m ∉ header.other_candidates ∧ p = 1)
    ∨ ∃ i, header.other_candidates[i]? = some m ∧ p = 2 + i

/-- Every candidate waits `twait_ms` for each position ahead of it. -/
def ExactDelays (header : JokerHeader) (config : Config) : Prop :=
  ∀ m p, AtPosition header m p →
    forward_delay header m config
      = milliseconds (config.twait_ms.toNat * (p - 1))

/-- The delays grow along the candidates. -/
def IncreasingDelays (header : JokerHeader) (config : Config) : Prop :=
  ∀ m m' p p', AtPosition header m p → AtPosition header m' p' → p < p' →
    forward_delay header m config < forward_delay header m' config

/-- No candidate is due before one ahead of it. -/
def InTurn (header : JokerHeader) (config : Config) : Prop :=
  ∀ m m' p p', AtPosition header m p → AtPosition header m' p' → p < p' →
    forward_delay header m config ≤ forward_delay header m' config

section

variable {header : JokerHeader} {config : Config}

theorem AtPosition.bounds {m : MacAddress} {p : Nat}
    (h : AtPosition header m p) :
    1 ≤ p ∧ p - 1 ≤ header.other_candidates.length := by
  rcases h with ⟨-, rfl⟩ | ⟨i, hi, rfl⟩
  · omega
  · obtain ⟨hlt, -⟩ := List.getElem?_eq_some_iff.mp hi
    omega

/-- The delay by position, as 32 bits hold it. -/
theorem AtPosition.delay_eq
    (hv : validate_header header config.candidate_count = true)
    {m : MacAddress} {p : Nat} (h : AtPosition header m p) :
    forward_delay header m config
      = milliseconds (config.twait_ms.toNat * (p - 1) % UInt32.size) := by
  rcases h with ⟨hm, rfl⟩ | ⟨i, hi, rfl⟩
  · unfold forward_delay
    rw [local_priority_of_notMem hm]
    simp
  · rw [forward_delay_of_getElem? hv hi, show 2 + i - 1 = i + 1 by omega]

/-- While the last position's product fits, so does every other. -/
theorem exact_of_fits
    (hv : validate_header header config.candidate_count = true)
    (hfit : config.twait_ms.toNat * header.other_candidates.length
      < UInt32.size) : ExactDelays header config := by
  intro m p h
  have hle := Nat.mul_le_mul_left config.twait_ms.toNat h.bounds.2
  rw [h.delay_eq hv, Nat.mod_eq_of_lt (Nat.lt_of_le_of_lt hle hfit)]

theorem ExactDelays.increasing (htwait : 0 < config.twait_ms)
    (h : ExactDelays header config) : IncreasingDelays header config := by
  intro m m' p p' hm hm' hpp'
  have ht : 0 < config.twait_ms.toNat := UInt32.lt_iff_toNat_lt.mp htwait
  have hone := hm.bounds.1
  rw [h m p hm, h m' p' hm', milliseconds_lt_iff]
  exact Nat.mul_lt_mul_of_pos_left (by omega) ht

theorem IncreasingDelays.in_turn (h : IncreasingDelays header config) :
    InTurn header config :=
  fun m m' p p' hm hm' hpp' => Int.le_of_lt (h m m' p p' hm hm' hpp')

/-- Past 32 bits some listed candidate overtakes the one ahead of it. -/
theorem InTurn.fits
    (hv : validate_header header config.candidate_count = true)
    (h : InTurn header config) :
    config.twait_ms.toNat * header.other_candidates.length
      < UInt32.size := by
  by_contra hover
  have ht : config.twait_ms.toNat < UInt32.size := config.twait_ms.toNat_lt
  obtain ⟨k, hk, hkn, hlt, hle⟩ :=
    exists_first_wrap ht _ (Nat.not_lt.mp hover)
  -- positions `k + 1` and `k + 2`, both listed
  have hm : AtPosition header (header.other_candidates[k - 1]) (2 + (k - 1)) :=
    Or.inr ⟨k - 1, List.getElem?_eq_getElem _, rfl⟩
  have hm' : AtPosition header (header.other_candidates[k]) (2 + k) :=
    Or.inr ⟨k, List.getElem?_eq_getElem _, rfl⟩
  have hturn := h _ _ _ _ hm hm' (by omega)
  rw [hm.delay_eq hv, hm'.delay_eq hv, milliseconds_le_iff,
    show 2 + (k - 1) - 1 = k by omega, show 2 + k - 1 = k + 1 by omega,
    Nat.mod_eq_of_lt hlt] at hturn
  exact absurd (wrapped_lt ht hlt hle) (Nat.not_lt.mpr hturn)

end

-- ============================================================ the answer

/-- What a candidate hands the timer wheel is its `forward_delay`; the
delays are exact, grow along the list and keep its order exactly when
`twait_ms` times the number of listed candidates fits 32 bits. -/
theorem delay_order_iff (header : JokerHeader) (config : Config)
    (htwait : 0 < config.twait_ms)
    (hv : validate_header header config.candidate_count = true) :
    (∀ (H : WheelHeap ForwardCallback) (c : TimerCoordinator H)
        (frame : Bytes) (m : MacAddress) (now : TimePoint),
      (c.accept header frame m config now).wheel
        = (c.wheel.Schedule now (forward_delay header m config)
            ⟨header.packet_id⟩).2)
    ∧ (ExactDelays header config
      ↔ config.twait_ms.toNat * header.other_candidates.length < UInt32.size)
    ∧ (IncreasingDelays header config
      ↔ config.twait_ms.toNat * header.other_candidates.length < UInt32.size)
    ∧ (InTurn header config
      ↔ config.twait_ms.toNat * header.other_candidates.length
          < UInt32.size) := by
  have hfits : InTurn header config → _ := InTurn.fits hv
  have hexact : _ → ExactDelays header config := exact_of_fits hv
  have hgrow : ExactDelays header config → IncreasingDelays header config :=
    ExactDelays.increasing htwait
  refine ⟨fun _ _ _ _ _ => rfl, ⟨fun h => ?_, hexact⟩,
    ⟨fun h => hfits h.in_turn, fun h => hgrow (hexact h)⟩,
    ⟨hfits, fun h => (hgrow (hexact h)).in_turn⟩⟩
  exact hfits (hgrow h).in_turn

/-- With the default 50 ms a listed candidate waits exactly that. -/
theorem delay_order_iff_default :
    ExactDelays (sample_header 7 5) {} :=
  (delay_order_iff (sample_header 7 5) {} (by decide) (by decide)).2.1.mpr
    (by decide)

/-- A header for station 9 with stations 1 and 2 as backup candidates. -/
def two_backups_header : JokerHeader :=
  { sample_header 7 5 with
    num_candidates := 2
    other_candidates := [station 1, station 2] }

/-- With `twait_ms` of `2^31` the third candidate waits nothing at all, and
is due before the second. -/
theorem third_candidate_first :
    ∃ config : Config, 0 < config.twait_ms
      ∧ validate_header two_backups_header config.candidate_count = true
      ∧ forward_delay two_backups_header (station 2) config = 0
      ∧ ¬ ExactDelays two_backups_header config
      ∧ ¬ IncreasingDelays two_backups_header config
      ∧ ¬ InTurn two_backups_header config := by
  have hv : validate_header two_backups_header 3 = true := by decide
  have hturn : ¬ InTurn two_backups_header
      { candidate_count := 3, twait_ms := 2147483648 } := fun h =>
    absurd (h.fits hv) (by decide)
  refine ⟨{ candidate_count := 3, twait_ms := 2147483648 }, by decide, hv,
    ?_, fun h => hturn (h.increasing (by decide)).in_turn,
    fun h => hturn h.in_turn, hturn⟩
  have hlisted : AtPosition two_backups_header (station 2) 3 :=
    Or.inr ⟨1, rfl, rfl⟩
  rw [hlisted.delay_eq hv]
  decide

end Joker
