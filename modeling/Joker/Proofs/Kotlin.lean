/-
Strings and numbers, there and back.

A number in a string template is read back by `toIntOrNull` and
`toLongOrNull` where it is in their range (`parseNumber_numberToString`),
and it contains neither a colon nor white space; nor does a transfer
id. `base64_no_wrap` is a codec with the standard alphabet.
-/
import Joker.Lib.Base64
import Joker.Model.MainActivity

namespace Joker

-- =============================================================== numbers

/-- The digits of the source are ASCII. -/
theorem toNat_unit_digit {c : Char} (hc : c.isDigit = true) :
    (unit c).toNat = c.toNat ∧ 48 ≤ c.toNat ∧ c.toNat ≤ 57 := by
  have hrange : 48 ≤ c.toNat ∧ c.toNat ≤ 57 := by
    simp only [Char.isDigit, Bool.and_eq_true, decide_eq_true_eq,
      UInt32.le_iff_toNat_le] at hc
    exact hc
  refine ⟨?_, hrange⟩
  unfold unit
  rw [UInt16.toNat_ofNat']
  omega

/-- A digit of the source is read back. -/
theorem digitOf_unit {c : Char} (hc : c.isDigit = true) :
    digitOf (unit c) = some (c.toNat - '0'.toNat) := by
  obtain ⟨hunit, hrange⟩ := toNat_unit_digit hc
  unfold digitOf digit_zeros
  rw [List.find?_cons_of_pos]
  · simp [hunit]
  · simp only [hunit, decide_eq_true_eq]
    omega

/-- What digits denote. -/
theorem foldlM_digitOf {cs : List Char} (hcs : ∀ c ∈ cs, c.isDigit = true)
    (value : Nat) :
    (cs.map unit).foldlM
        (fun value c => (digitOf c).map (10 * value + ·)) value
      = some (Nat.ofDigitChars 10 cs value) := by
  induction cs generalizing value with
  | nil => rfl
  | cons c cs ih =>
      have hc := hcs c List.mem_cons_self
      rw [List.map_cons, List.foldlM_cons, digitOf_unit hc,
        Nat.ofDigitChars_cons]
      exact ih (fun d hd => hcs d (List.mem_cons_of_mem c hd)) _

theorem digitsValue_toDigits (n : Nat) :
    digitsValue ((Nat.toDigits 10 n).map unit) = some n := by
  have hdigits : ∀ c ∈ Nat.toDigits 10 n, c.isDigit = true := fun c hc =>
    Nat.isDigit_of_mem_toDigits (by decide) (by decide) hc
  unfold digitsValue
  rw [foldlM_digitOf hdigits, Nat.ofDigitChars_ten_toDigits]

/-- A digit is no sign. -/
theorem unit_digit_ge {c : Char} (hc : c.isDigit = true) :
    ¬ unit c < unit '0' := by
  obtain ⟨hunit, hrange⟩ := toNat_unit_digit hc
  rw [UInt16.lt_iff_toNat_lt]
  show ¬ (unit c).toNat < 48
  omega

/-- A number in a string template is read back. -/
theorem parseNumber_numberToString (n : Int) :
    parseNumber (numberToString n) = some n := by
  have hvalue := digitsValue_toDigits n.natAbs
  have hdigit : ∀ c ∈ Nat.toDigits 10 n.natAbs, c.isDigit = true := fun c hc =>
    Nat.isDigit_of_mem_toDigits (by decide) (by decide) hc
  unfold numberToString
  cases hd : Nat.toDigits 10 n.natAbs with
  | nil => exact absurd hd Nat.toDigits_ne_nil
  | cons c cs =>
      rw [hd] at hvalue hdigit
      by_cases hn : n < 0
      · rw [if_pos hn, parseNumber, if_pos (by decide), if_neg (by simp),
          if_pos rfl, hvalue, Option.map_some]
        congr 1
        omega
      · rw [if_neg hn, List.map_cons, parseNumber,
          if_neg (unit_digit_ge (hdigit c List.mem_cons_self)),
          ← List.map_cons, hvalue, Option.map_some]
        congr 1
        omega

theorem toIntOrNull_numberToString {n : Int} (hlo : -2147483648 ≤ n)
    (hhi : n ≤ 2147483647) : toIntOrNull (numberToString n) = some n := by
  unfold toIntOrNull
  rw [parseNumber_numberToString]
  simp [hlo, hhi]

theorem toLongOrNull_numberToString {n : Int} (hlo : -2147483648 ≤ n)
    (hhi : n ≤ 2147483647) : toLongOrNull (numberToString n) = some n := by
  unfold toLongOrNull
  rw [parseNumber_numberToString, Option.filter_some, if_pos]
  rw [decide_eq_true_eq]
  omega

/-- A unit of a number is a sign or a digit. -/
theorem mem_numberToString {n : Int} {c : KChar} (hc : c ∈ numberToString n) :
    c = unit '-' ∨ ∃ d : Char, d.isDigit = true ∧ c = unit d := by
  have hdigit : c ∈ (Nat.toDigits 10 n.natAbs).map unit →
      ∃ d : Char, d.isDigit = true ∧ c = unit d := by
    intro hmem
    obtain ⟨d, hd, rfl⟩ := List.mem_map.mp hmem
    exact ⟨d, Nat.isDigit_of_mem_toDigits (by decide) (by decide) hd, rfl⟩
  unfold numberToString at hc
  dsimp only at hc
  split at hc
  · rcases List.mem_cons.mp hc with hsign | hmem
    · exact Or.inl hsign
    · exact Or.inr (hdigit hmem)
  · exact Or.inr (hdigit hc)

/-- Numbers contain no colon. -/
theorem colon_notMem_numberToString (n : Int) :
    unit ':' ∉ numberToString n := by
  intro h
  rcases mem_numberToString h with hsign | ⟨d, hd, heq⟩
  · exact absurd hsign (by decide)
  · have hread := digitOf_unit hd
    rw [← heq] at hread
    exact absurd hread (by simp [show digitOf (unit ':') = none by decide])

-- =============================================================== strings

/-- The units of an id are letters and digits. -/
theorem TransferId.range (id : TransferId) {c : KChar} (hc : c ∈ id.value) :
    (48 ≤ c.toNat ∧ c.toNat ≤ 57) ∨ (97 ≤ c.toNat ∧ c.toNat ≤ 102) := by
  rcases id.hexadecimal c hc with ⟨hlo, hhi⟩ | ⟨hlo, hhi⟩
  · exact Or.inl ⟨UInt16.le_iff_toNat_le.mp hlo, UInt16.le_iff_toNat_le.mp hhi⟩
  · exact Or.inr ⟨UInt16.le_iff_toNat_le.mp hlo, UInt16.le_iff_toNat_le.mp hhi⟩

/-- Whether a string can be an id is computed unit by unit. -/
theorem hexadecimal_of_all {s : KString}
    (h : s.all (fun c => (unit '0' ≤ c ∧ c ≤ unit '9')
      ∨ (unit 'a' ≤ c ∧ c ≤ unit 'f')) = true) :
    ∀ c ∈ s, (unit '0' ≤ c ∧ c ≤ unit '9')
      ∨ (unit 'a' ≤ c ∧ c ≤ unit 'f') :=
  fun c hc => of_decide_eq_true (List.all_eq_true.mp h c hc)

theorem TransferId.value_inj {id id' : TransferId}
    (h : id.value = id'.value) : id = id' := by
  cases id
  cases id'
  cases h
  rfl

theorem TransferId.colon_notMem (id : TransferId) : unit ':' ∉ id.value := by
  intro h
  have hcolon : (unit ':').toNat = 58 := rfl
  rcases id.range h with hrange | hrange <;> omega

/-- White space is neither letter nor digit. -/
theorem isWhitespace_false {c : KChar}
    (hc : (48 ≤ c.toNat ∧ c.toNat ≤ 57) ∨ (97 ≤ c.toNat ∧ c.toNat ≤ 102)) :
    isWhitespace c = false := by
  unfold isWhitespace
  simp only [decide_eq_false_iff_not, UInt16.le_iff_toNat_le,
    ← UInt16.toNat_inj, UInt16.reduceToNat]
  omega

/-- There is nothing to trim about an id. -/
theorem TransferId.trim_value (id : TransferId) :
    KString.trim id.value = id.value := by
  have hnone : ∀ s : KString, (∀ c ∈ s, isWhitespace c = false) →
      s.dropWhile isWhitespace = s := by
    intro s hs
    cases s with
    | nil => rfl
    | cons c cs => simp [hs c List.mem_cons_self]
  have hid : ∀ c ∈ id.value, isWhitespace c = false :=
    fun c hc => isWhitespace_false (id.range hc)
  unfold KString.trim
  rw [hnone _ hid, hnone _ fun c hc => hid c (List.mem_reverse.mp hc),
    List.reverse_reverse]

/-- A string after its own beginning. -/
theorem substringAfter_append (beginning s : KString) (hne : beginning ≠ []) :
    KString.substringAfter (beginning ++ s) beginning = s := by
  unfold KString.substringAfter
  cases beginning with
  | nil => exact absurd rfl hne
  | cons c cs =>
      have hprefix : (c :: cs).isPrefixOf (c :: cs ++ s) = true :=
        List.isPrefixOf_iff_prefix.mpr (List.prefix_append _ _)
      rw [List.cons_append] at hprefix ⊢
      rw [KString.afterFirst, if_pos hprefix]
      simp

theorem startsWith_append (beginning s : KString) :
    KString.startsWith (beginning ++ s) beginning = true :=
  List.isPrefixOf_iff_prefix.mpr (List.prefix_append _ _)

/-- A string that begins one way does not begin another way. -/
theorem startsWith_append_of_not {a b : KString} (s : KString)
    (hab : ¬ a <+: b) (hba : ¬ b <+: a) :
    KString.startsWith (a ++ s) b = false := by
  rw [KString.startsWith, ← Bool.not_eq_true, List.isPrefixOf_iff_prefix]
  intro hb
  rcases List.prefix_or_prefix_of_prefix hb (List.prefix_append a s) with h | h
  · exact hba h
  · exact hab h

-- ================================================================ base64

def base64_letters : KString :=
  literal "ABCDEFGHIJKLMNOPQRSTUVWXYZabcdefghijklmnopqrstuvwxyz0123456789+/"

/-- The standard alphabet. -/
def base64_alphabet : Base64.Alphabet KChar where
  letter n := base64_letters.getD n 0
  pad := unit '='
  sextet c := base64_letters.findIdx? (· == c)
  sextet_letter := by decide
  sextet_pad := by decide

/-- The codec of that alphabet. -/
def base64_no_wrap : Base64Codec where
  encodeToString := Base64.encode base64_alphabet
  decode := Base64.decode base64_alphabet
  decode_encodeToString := Base64.decode_encode base64_alphabet

end Joker
