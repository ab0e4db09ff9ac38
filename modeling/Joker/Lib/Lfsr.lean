/-
Shift registers with feedback: the step behind every reflected CRC, over
registers of any width and any feedback polynomial.

# What the module packages

- the step, bit by bit (`getLsbD_step`), and its linearity (`step_xor`);
- what many steps do to the low bits and to the rest of a register
  (`iterate_step_split`), the reason a table over the low bits works;
- feeding bits into a register, as steps of the register with the bits
  added to it (`feed_eq`);
- nothing is lost: with feedback into the highest bit a step is injective
  (`step_injective`), and so is feeding as many bits as the register holds
  (`feed_injective`).
-/
import Mathlib.Logic.Function.Iterate

namespace Lfsr

variable {w : Nat} (p : BitVec w)

-- ============================================================== the step

/-- One step: shift down, and add the feedback if a one drops out. -/
def step (x : BitVec w) : BitVec w :=
  if x.getLsbD 0 then p ^^^ (x >>> 1) else x >>> 1

theorem getLsbD_step (x : BitVec w) (i : Nat) :
    (step p x).getLsbD i
      = ((x.getLsbD 0 && p.getLsbD i) ^^ x.getLsbD (i + 1)) := by
  unfold step
  cases hx : x.getLsbD 0 with
  | true => simp [Nat.add_comm 1 i]
  | false => simp [Nat.add_comm 1 i]

/-- A step is linear. -/
theorem step_xor (x y : BitVec w) :
    step p (x ^^^ y) = step p x ^^^ step p y := by
  apply BitVec.eq_of_getLsbD_eq
  intro i _
  simp only [getLsbD_step, BitVec.getLsbD_xor]
  generalize x.getLsbD 0 = a
  generalize y.getLsbD 0 = b
  cases a <;> cases b <;> cases p.getLsbD i <;> simp

/-- So are many. -/
theorem iterate_step_xor (n : Nat) (x y : BitVec w) :
    (step p)^[n] (x ^^^ y) = (step p)^[n] x ^^^ (step p)^[n] y := by
  induction n generalizing x y with
  | zero => rfl
  | succ n ih =>
      rw [Function.iterate_succ_apply, step_xor, ih]
      rfl

/-- As long as zeros drop out there is no feedback. -/
theorem iterate_step_of_low (n : Nat) {x : BitVec w}
    (h : ∀ i < n, x.getLsbD i = false) : (step p)^[n] x = x >>> n := by
  induction n with
  | zero => simp
  | succ n ih =>
      rw [Function.iterate_succ_apply',
        ih fun i hi => h i (Nat.lt_succ_of_lt hi)]
      have hzero : (x >>> n).getLsbD 0 = false := by
        simpa using h n (Nat.lt_succ_self n)
      unfold step
      rw [hzero, BitVec.shiftRight_add]
      rfl

/-- The low `n` bits of a register. -/
def low (n : Nat) (x : BitVec w) : BitVec w := (x.setWidth n).setWidth w

theorem getLsbD_low (n : Nat) (x : BitVec w) (i : Nat) :
    (low n x).getLsbD i = (decide (i < n) && x.getLsbD i) := by
  unfold low
  simp only [BitVec.getLsbD_setWidth]
  by_cases hi : i < w
  · simp [hi]
  · simp [hi, BitVec.getLsbD_of_ge x i (Nat.not_lt.mp hi)]

/-- What `n` steps make of a register is what they make of its low bits,
added to the rest shifted down. -/
theorem iterate_step_split (n : Nat) (x : BitVec w) :
    (step p)^[n] x = (step p)^[n] (low n x) ^^^ (x >>> n) := by
  have hsplit : x = low n x ^^^ (x ^^^ low n x) := by
    rw [BitVec.xor_comm x, ← BitVec.xor_assoc, BitVec.xor_self,
      BitVec.zero_xor]
  have hhigh : ∀ i < n, (x ^^^ low n x).getLsbD i = false := by
    intro i hi
    simp [getLsbD_low, hi]
  have hrest : (x ^^^ low n x) >>> n = x >>> n := by
    apply BitVec.eq_of_getLsbD_eq
    intro i _
    have hi : ¬ n + i < n := Nat.not_lt.mpr (Nat.le_add_right n i)
    simp [getLsbD_low, hi]
  calc (step p)^[n] x
      = (step p)^[n] (low n x ^^^ (x ^^^ low n x)) := by rw [← hsplit]
    _ = (step p)^[n] (low n x) ^^^ (x >>> n) := by
        rw [iterate_step_xor, iterate_step_of_low p n hhigh, hrest]

-- ========================================================== feeding bits

/-- Bits are added to the lowest bit, each before a step. -/
def feed (x : BitVec w) (bs : List Bool) : BitVec w :=
  bs.foldl (fun x b => step p (x ^^^ (BitVec.ofBool b).setWidth w)) x

theorem feed_append (x : BitVec w) (bs cs : List Bool) :
    feed p x (bs ++ cs) = feed p (feed p x bs) cs :=
  List.foldl_append

/-- The register that holds the bits, the first lowest. -/
def ofBits (w : Nat) (bs : List Bool) : BitVec w :=
  (BitVec.ofBoolListLE bs).setWidth w

theorem getLsbD_ofBits {bs : List Bool} (h : bs.length ≤ w) (i : Nat) :
    (ofBits w bs).getLsbD i = bs.getD i false := by
  unfold ofBits
  rw [BitVec.getLsbD_setWidth, BitVec.getLsbD_ofBoolListLE]
  by_cases hi : i < w
  · simp [hi]
  · have hlen : bs.length ≤ i := Nat.le_trans h (Nat.not_lt.mp hi)
    simp [hlen]

/-- The bits can be added before the steps, all at once. -/
theorem feed_eq (x : BitVec w) {bs : List Bool} (h : bs.length ≤ w) :
    feed p x bs = (step p)^[bs.length] (x ^^^ ofBits w bs) := by
  induction bs generalizing x with
  | nil => simp [feed, ofBits, BitVec.ofBoolListLE]
  | cons b bs ih =>
      have hlen : bs.length < w := h
      have hle := Nat.le_of_lt hlen
      have hcons : ofBits w (b :: bs)
          = (BitVec.ofBool b).setWidth w ^^^ (ofBits w bs <<< 1) := by
        apply BitVec.eq_of_getLsbD_eq
        intro i hi
        rw [getLsbD_ofBits h, BitVec.getLsbD_xor, BitVec.getLsbD_shiftLeft,
          getLsbD_ofBits hle, BitVec.getLsbD_setWidth, BitVec.getLsbD_ofBool]
        cases i with
        | zero => simp [hi]
        | succ i => simp [hi]
      have hshift : step p (ofBits w bs <<< 1) = ofBits w bs := by
        apply BitVec.eq_of_getLsbD_eq
        intro i hi
        rw [getLsbD_step]
        by_cases hlast : i + 1 < w
        · simp [hlast, BitVec.getLsbD_eq_getElem hi]
        · -- with room to spare the highest bit is zero
          have hge : bs.length ≤ i := by omega
          simp [hlast, getLsbD_ofBits hle, hge]
      show feed p (step p (x ^^^ (BitVec.ofBool b).setWidth w)) bs = _
      rw [ih _ hle, List.length_cons, Function.iterate_succ_apply, hcons,
        ← BitVec.xor_assoc, step_xor p _ (ofBits w bs <<< 1), hshift]

-- ========================================================== nothing lost

variable {p}

/-- With feedback into the highest bit, that bit tells what dropped out. -/
theorem getLsbD_step_last (hp : p.getLsbD (w - 1) = true) (x : BitVec w) :
    (step p x).getLsbD (w - 1) = x.getLsbD 0 := by
  rw [getLsbD_step, hp, BitVec.getLsbD_of_ge x (w - 1 + 1) (by omega)]
  simp

theorem step_injective (hp : p.getLsbD (w - 1) = true) :
    Function.Injective (step p) := by
  intro x y h
  have hzero : x.getLsbD 0 = y.getLsbD 0 := by
    rw [← getLsbD_step_last hp x, h, getLsbD_step_last hp y]
  apply BitVec.eq_of_getLsbD_eq
  intro i _
  cases i with
  | zero => exact hzero
  | succ i =>
      have hi : (step p x).getLsbD i = (step p y).getLsbD i := by rw [h]
      rw [getLsbD_step, getLsbD_step, hzero] at hi
      exact Bool.xor_right_inj.mp hi

/-- Different bits leave different registers. -/
theorem feed_injective (hp : p.getLsbD (w - 1) = true) (x : BitVec w)
    {bs cs : List Bool} (hlen : bs.length = cs.length) (hw : bs.length ≤ w)
    (h : feed p x bs = feed p x cs) : bs = cs := by
  rw [feed_eq p x hw, feed_eq p x (hlen ▸ hw), ← hlen] at h
  have hbits : ofBits w bs = ofBits w cs :=
    BitVec.xor_right_inj x |>.mp ((step_injective hp).iterate bs.length h)
  refine List.ext_getElem hlen fun i hi hi' => ?_
  have hbit : (ofBits w bs).getLsbD i = (ofBits w cs).getLsbD i := by rw [hbits]
  rw [getLsbD_ofBits hw, getLsbD_ofBits (hlen ▸ hw)] at hbit
  simpa [hi, hi'] using hbit

end Lfsr
