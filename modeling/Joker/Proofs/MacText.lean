/-
The text of a MAC address: what `Parse` accepts, and what it makes of it.

The grammar is stated without the code: six groups of two hexadecimal
digits of either case, joined by one separator, a colon or a dash
(`Grammar`, `spelling`). `Parse` accepts exactly the spellings
(`parse_eq_some_iff`); the loop is an induction over the groups that are
left, on the text from the current offset (`parse_groups_eq_some_iff`).
`ToString` writes one spelling of each address, and writes it again for
whatever spelling was read.

What holds of one character or of one byte is checked for all of them.
-/
import Joker.Model.MacText
import Mathlib.Tactic.Tauto

namespace Joker

-- ============================================================ the grammar

/-- The hexadecimal digits by value. -/
def hex_digits : Bytes := "0123456789abcdef".toList.map Char.toUInt8

/-- A letter in lower case. -/
def lower (c : UInt8) : UInt8 :=
  if 'A'.toUInt8 ≤ c ∧ c ≤ 'Z'.toUInt8 then c + 32 else c

/-- A hexadecimal digit, in either case. -/
def IsHexDigit (c : UInt8) : Prop := lower c ∈ hex_digits

instance (c : UInt8) : Decidable (IsHexDigit c) :=
  inferInstanceAs (Decidable (_ ∈ _))

/-- Its value, which is its place among the digits. -/
def hex_value (c : UInt8) : Nat := hex_digits.idxOf (lower c)

/-- The byte a group of two digits stands for. -/
def group_value (g : UInt8 × UInt8) : UInt8 :=
  UInt8.ofNat (16 * hex_value g.1 + hex_value g.2)

/-- Six groups of digits and one of the separators. -/
structure Grammar (sep : UInt8) (groups : List (UInt8 × UInt8)) : Prop where
  separator : sep = ':'.toUInt8 ∨ sep = '-'.toUInt8
  six : groups.length = 6
  digits : ∀ g ∈ groups, IsHexDigit g.1 ∧ IsHexDigit g.2

/-- The groups, joined by the separator. -/
def spelling (sep : UInt8) (groups : List (UInt8 × UInt8)) : Bytes :=
  [sep].intercalate (groups.map fun g => [g.1, g.2])

@[simp] theorem spelling_singleton (sep : UInt8) (g : UInt8 × UInt8) :
    spelling sep [g] = [g.1, g.2] := rfl

@[simp] theorem spelling_cons_cons (sep : UInt8) (g g' : UInt8 × UInt8)
    (groups : List (UInt8 × UInt8)) :
    spelling sep (g :: g' :: groups)
      = g.1 :: g.2 :: sep :: spelling sep (g' :: groups) := by
  unfold spelling
  rw [List.map_cons, List.map_cons, List.intercalate_cons_cons]
  rfl

theorem spelling_length (sep : UInt8) (groups : List (UInt8 × UInt8)) :
    (spelling sep groups).length = 3 * groups.length - 1 := by
  induction groups with
  | nil => rfl
  | cons g groups ih =>
      cases groups with
      | nil => rfl
      | cons g' groups =>
          rw [spelling_cons_cons]
          simp only [List.length_cons] at ih ⊢
          omega

-- ================================================ character by character

/-- What holds of every number below 256 holds of every byte. -/
theorem forall_byte {P : UInt8 → Prop}
    (h : ∀ n : Nat, n < 256 → P (UInt8.ofNat n)) : ∀ c, P c := by
  intro c
  have hc := h c.toNat c.toNat_lt
  rwa [UInt8.ofNat_toNat] at hc

/-- A digit is parsed to its value, and the value finds the digit. -/
theorem parseHexChar_digit : ∀ c, IsHexDigit c →
    ParseHexChar c = Int32.ofNat (hex_value c) ∧ hex_value c < 16
      ∧ hex_digits.getD (hex_value c) 0 = lower c :=
  forall_byte (by decide +kernel)

/-- Nothing but a digit is parsed. -/
theorem parseHexChar_eq_neg_one_iff :
    ∀ c, ParseHexChar c = -1 ↔ ¬ IsHexDigit c :=
  forall_byte (by decide +kernel)

theorem join_nibbles_eq : ∀ h1 : Nat, h1 < 16 → ∀ h2 : Nat, h2 < 16 →
    join_nibbles (Int32.ofNat h1) (Int32.ofNat h2)
      = UInt8.ofNat (16 * h1 + h2) := by
  decide +kernel

/-- The loop stores the value of the group. -/
theorem join_digits {a b : UInt8} (ha : IsHexDigit a) (hb : IsHexDigit b) :
    join_nibbles (ParseHexChar a) (ParseHexChar b) = group_value (a, b) := by
  obtain ⟨hav, ha16, -⟩ := parseHexChar_digit a ha
  obtain ⟨hbv, hb16, -⟩ := parseHexChar_digit b hb
  rw [hav, hbv, join_nibbles_eq _ ha16 _ hb16]
  rfl

-- ================================================================ the loop

namespace MacAddress

variable {text : Bytes} {sep : UInt8}

/-- One turn of the loop, by what is at its offset. -/
theorem parse_groups_succ {i : Nat} {a b : UInt8} {rest : Bytes}
    (hdrop : text.drop (i * 3) = a :: b :: rest) (left : Nat)
    (bytes : MacAddress) :
    parse_groups text sep (left + 1) i bytes
      = if i < 5 ∧ rest.getD 0 0 ≠ sep then none
        else if IsHexDigit a ∧ IsHexDigit b then
          parse_groups text sep left (i + 1) (bytes.set i (group_value (a, b)))
        else none := by
  have hget : ∀ k, text.getD (i * 3 + k) 0 = (a :: b :: rest).getD k 0 := by
    intro k
    rw [← hdrop, List.getD_eq_getElem?_getD, List.getD_eq_getElem?_getD,
      List.getElem?_drop]
  rw [parse_groups]
  dsimp only
  rw [hget 2, hget 1, ← Nat.add_zero (i * 3), hget 0]
  simp only [List.getD_cons_succ, List.getD_cons_zero,
    parseHexChar_eq_neg_one_iff]
  by_cases ha : IsHexDigit a
  · by_cases hb : IsHexDigit b
    · simp [ha, hb, join_digits ha hb]
    · simp [hb]
  · simp [ha]

/-- The text spells so many groups, with these values. -/
def Spells (sep : UInt8) (left : Nat) (text values : Bytes) : Prop :=
  ∃ groups : List (UInt8 × UInt8), groups.length = left
    ∧ (∀ g ∈ groups, IsHexDigit g.1 ∧ IsHexDigit g.2)
    ∧ text = spelling sep groups ∧ values = groups.map group_value

theorem spells_zero {values : Bytes} :
    Spells sep 0 [] values ↔ values = [] := by
  constructor
  · rintro ⟨groups, hlen, -, -, rfl⟩
    rw [List.length_eq_zero_iff.mp hlen]
    rfl
  · rintro rfl
    exact ⟨[], rfl, by simp, rfl, rfl⟩

theorem spells_one {a b : UInt8} {values : Bytes} :
    Spells sep 1 [a, b] values
      ↔ (IsHexDigit a ∧ IsHexDigit b) ∧ values = [group_value (a, b)] := by
  constructor
  · rintro ⟨groups, hlen, hdigits, htext, rfl⟩
    obtain ⟨g, rfl⟩ := List.length_eq_one_iff.mp hlen
    obtain ⟨x, y⟩ := g
    simp only [spelling_singleton, List.cons.injEq, and_true] at htext
    obtain ⟨rfl, rfl⟩ := htext
    exact ⟨hdigits (a, b) List.mem_cons_self, rfl⟩
  · rintro ⟨hdigits, rfl⟩
    exact ⟨[(a, b)], rfl, by simpa using hdigits, rfl, rfl⟩

theorem spells_succ {left : Nat} {a b s : UInt8} {rest values : Bytes} :
    Spells sep (left + 2) (a :: b :: s :: rest) values
      ↔ s = sep ∧ (IsHexDigit a ∧ IsHexDigit b) ∧ ∃ values',
        values = group_value (a, b) :: values'
          ∧ Spells sep (left + 1) rest values' := by
  constructor
  · rintro ⟨groups, hlen, hdigits, htext, rfl⟩
    obtain _ | ⟨⟨x, y⟩, _ | ⟨g, groups⟩⟩ := groups
    · cases hlen
    · cases hlen
    · simp only [spelling_cons_cons, List.cons.injEq] at htext
      obtain ⟨rfl, rfl, rfl, rfl⟩ := htext
      rw [List.forall_mem_cons] at hdigits
      exact ⟨rfl, hdigits.1, _, rfl, g :: groups, Nat.succ.inj hlen,
        hdigits.2, rfl, rfl⟩
  · rintro ⟨rfl, hab, values', rfl, groups, hlen, hdigits, rfl, rfl⟩
    obtain _ | ⟨g, groups⟩ := groups
    · cases hlen
    · refine ⟨(a, b) :: g :: groups, congrArg Nat.succ hlen, ?_, ?_, rfl⟩
      · rw [List.forall_mem_cons]
        exact ⟨hab, hdigits⟩
      · rw [spelling_cons_cons]

theorem take_set {m : MacAddress} {i : Nat} (hi : i < 6) (b : UInt8) :
    (m.set i b).bytes.take (i + 1) = m.bytes.take i ++ [b] := by
  show (m.bytes.set i b).take (i + 1) = _
  have hlen : i < (m.bytes.set i b).length := by
    rw [List.length_set, m.length_bytes]
    exact hi
  rw [List.take_add_one, List.getElem?_eq_getElem hlen,
    List.getElem_set_self, List.take_set_of_le (Nat.le_refl i)]
  rfl

/-- A text that is long enough for a group begins with one. -/
theorem exists_group {left : Nat} {tail : Bytes}
    (h : tail.length = 3 * (left + 1) - 1) :
    ∃ a b rest, tail = a :: b :: rest ∧ rest.length = 3 * left := by
  match tail, h with
  | a :: b :: rest, h =>
      rw [List.length_cons, List.length_cons] at h
      exact ⟨a, b, rest, rfl, by omega⟩

/-- The loop from group `i` accepts what spells the groups that are left,
and keeps the bytes before. -/
theorem parse_groups_eq_some_iff (left : Nat) :
    ∀ (i : Nat) (bytes m : MacAddress), i + left = 6 →
      (text.drop (i * 3)).length = 3 * left - 1 →
      (parse_groups text sep left i bytes = some m
        ↔ ∃ values, Spells sep left (text.drop (i * 3)) values
          ∧ m.bytes = bytes.bytes.take i ++ values) := by
  induction left with
  | zero =>
      intro i bytes m hi hlen
      have hall : bytes.bytes.take i = bytes.bytes :=
        List.take_of_length_le (by rw [bytes.length_bytes]; omega)
      rw [List.length_eq_zero_iff.mp hlen, hall]
      simp only [parse_groups, spells_zero, Option.some.injEq,
        exists_eq_left, List.append_nil]
      constructor
      · rintro rfl
        rfl
      · intro h
        exact (ext_bytes h).symm
  | succ left ih =>
      intro i bytes m hi hlen
      obtain ⟨a, b, rest, hdrop, hrest⟩ := exists_group hlen
      have hnext : text.drop ((i + 1) * 3) = rest.drop 1 := by
        rw [Nat.succ_mul, ← List.drop_drop, hdrop]
        rfl
      have htail := ih (i + 1) (bytes.set i (group_value (a, b))) m (by omega)
        (by rw [hnext, List.length_drop]; omega)
      rw [hnext, take_set (by omega)] at htail
      rw [parse_groups_succ hdrop, hdrop]
      cases left with
      | zero =>
          obtain rfl := List.length_eq_zero_iff.mp hrest
          simp only [List.drop_nil, spells_zero, exists_eq_left] at htail
          simp only [Nat.zero_add, spells_one]
          rw [if_neg (by omega)]
          by_cases hab : IsHexDigit a ∧ IsHexDigit b
          · simp [hab, htail]
          · simp [hab]
      | succ left =>
          obtain ⟨s, rest, rfl⟩ :=
            List.exists_cons_of_length_eq_add_one hrest
          simp only [spells_succ]
          by_cases hs : s = sep
          · by_cases hab : IsHexDigit a ∧ IsHexDigit b
            · simp [hs, hab, htail]
            · simp [hs, hab]
          · have hi : i < 5 := by omega
            simp [hs, hi]

-- ============================================================== both ways

/-- Six groups spelt out are as long as `Parse` wants, with the separator
where it looks for it. -/
theorem spelling_of_six {groups : List (UInt8 × UInt8)}
    (h : groups.length = 6) :
    (spelling sep groups).length = 17
      ∧ (spelling sep groups).getD 2 0 = sep := by
  constructor
  · rw [spelling_length, h]
  · obtain _ | ⟨g, _ | ⟨g', groups⟩⟩ := groups
    · cases h
    · cases h
    · rw [spelling_cons_cons]
      rfl

/-- `Parse` accepts the spellings of the grammar, and yields the values of
the groups. -/
theorem parse_eq_some_iff (text : Bytes) (m : MacAddress) :
    Parse text = some m
      ↔ ∃ sep groups, Grammar sep groups ∧ text = spelling sep groups
        ∧ m.bytes = groups.map group_value := by
  have hgroups : ∀ sep, text.length = 17 →
      (parse_groups text sep 6 0 zero = some m
        ↔ ∃ values, Spells sep 6 text values ∧ m.bytes = values) := by
    intro sep hlen
    simpa using @parse_groups_eq_some_iff text sep 6 0 zero m
      rfl (by simpa using hlen)
  unfold Parse
  constructor
  · intro h
    dsimp only at h
    split at h
    · cases h
    · next hlen =>
      split at h
      · cases h
      · next hsep =>
        obtain ⟨values, ⟨groups, hsix, hdigits, htext, rfl⟩, hm⟩ :=
          (hgroups _ (not_not.mp hlen)).mp h
        exact ⟨_, groups, ⟨by tauto, hsix, hdigits⟩, htext, hm⟩
  · rintro ⟨sep, groups, hg, htext, hm⟩
    obtain ⟨hlen, hget⟩ := @spelling_of_six sep groups hg.six
    rw [← htext] at hlen hget
    dsimp only
    rw [hget, if_neg (not_not.mpr hlen),
      if_neg (fun h => hg.separator.elim h.1 h.2)]
    exact (hgroups sep hlen).mpr
      ⟨_, ⟨groups, hg.six, hg.digits, htext, rfl⟩, hm⟩

/-- The two digits `%02x` writes. -/
def digits_of (b : UInt8) : UInt8 × UInt8 :=
  (hex_digits.getD (b.toNat / 16) 0, hex_digits.getD (b.toNat % 16) 0)

theorem digits_of_spec : ∀ b,
    (IsHexDigit (digits_of b).1 ∧ IsHexDigit (digits_of b).2)
      ∧ group_value (digits_of b) = b :=
  forall_byte (by decide +kernel)

theorem toString_eq (m : MacAddress) :
    ToString m = spelling ':'.toUInt8 (m.bytes.map digits_of) := by
  unfold ToString spelling
  rw [List.map_map]
  rfl

/-- What is written is read back. -/
theorem parse_toString (m : MacAddress) : Parse (ToString m) = some m := by
  refine (parse_eq_some_iff _ m).mpr ⟨_, _, ⟨Or.inl rfl, ?_, ?_⟩,
    toString_eq m, ?_⟩
  · rw [List.length_map, m.length_bytes]
  · intro g hg
    obtain ⟨b, -, rfl⟩ := List.mem_map.mp hg
    exact (digits_of_spec b).1
  · rw [List.map_map]
    have hid : group_value ∘ digits_of = id :=
      funext fun b => (digits_of_spec b).2
    rw [hid, List.map_id]

/-- Lower case, with a colon for a dash. -/
def canonical (c : UInt8) : UInt8 :=
  if c = '-'.toUInt8 then ':'.toUInt8 else lower c

theorem canonical_digit : ∀ c, IsHexDigit c → canonical c = lower c :=
  forall_byte (by decide +kernel)

theorem canonical_separator {sep : UInt8}
    (h : sep = ':'.toUInt8 ∨ sep = '-'.toUInt8) :
    canonical sep = ':'.toUInt8 := by
  rcases h with rfl | rfl <;> rfl

theorem spelling_map (f : UInt8 → UInt8) (sep : UInt8)
    (groups : List (UInt8 × UInt8)) :
    (spelling sep groups).map f
      = spelling (f sep) (groups.map fun g => (f g.1, f g.2)) := by
  induction groups with
  | nil => rfl
  | cons g groups ih =>
      cases groups with
      | nil => rfl
      | cons g' groups =>
          rw [List.map_cons] at ih
          rw [spelling_cons_cons, List.map_cons, List.map_cons, List.map_cons,
            ih, List.map_cons, List.map_cons, spelling_cons_cons]

/-- The digits written for the value of a group are the group's own, in
lower case. -/
theorem digits_of_group_value {g : UInt8 × UInt8}
    (h : IsHexDigit g.1 ∧ IsHexDigit g.2) :
    digits_of (group_value g) = (canonical g.1, canonical g.2) := by
  obtain ⟨-, h16, hfind⟩ := parseHexChar_digit g.1 h.1
  obtain ⟨-, h16', hfind'⟩ := parseHexChar_digit g.2 h.2
  have hval : (group_value g).toNat = 16 * hex_value g.1 + hex_value g.2 :=
    Nat.mod_eq_of_lt (by omega)
  unfold digits_of
  rw [hval, show (16 * hex_value g.1 + hex_value g.2) / 16 = hex_value g.1 by
      omega,
    show (16 * hex_value g.1 + hex_value g.2) % 16 = hex_value g.2 by omega,
    hfind, hfind', canonical_digit _ h.1, canonical_digit _ h.2]

/-- What was read is written in lower case, with colons. -/
theorem toString_of_parse {text : Bytes} {m : MacAddress}
    (h : Parse text = some m) : ToString m = text.map canonical := by
  obtain ⟨sep, groups, hg, rfl, hm⟩ := (parse_eq_some_iff text m).mp h
  rw [toString_eq, hm, List.map_map, spelling_map,
    canonical_separator hg.separator]
  congr 1
  exact List.map_congr_left fun g hmem =>
    digits_of_group_value (hg.digits g hmem)

/-- The text of an address. A text is parsed exactly when it is six groups
of two hexadecimal digits joined by one separator, into the values of the
groups; what `ToString` writes is parsed back, and what was parsed is
written in lower case with colons. -/
theorem mac_text_exact :
    (∀ text, (Parse text).isSome = true
      ↔ ∃ sep groups, Grammar sep groups ∧ text = spelling sep groups)
    ∧ (∀ text m, Parse text = some m
      ↔ ∃ sep groups, Grammar sep groups ∧ text = spelling sep groups
        ∧ m.bytes = groups.map group_value)
    ∧ (∀ m, Parse (ToString m) = some m)
    ∧ ∀ text m, Parse text = some m → ToString m = text.map canonical := by
  refine ⟨fun text => ?_, parse_eq_some_iff, parse_toString,
    fun _ _ => toString_of_parse⟩
  rw [Option.isSome_iff_exists]
  simp only [parse_eq_some_iff]
  constructor
  · rintro ⟨m, sep, groups, hg, htext, -⟩
    exact ⟨sep, groups, hg, htext⟩
  · rintro ⟨sep, groups, hg, htext⟩
    have hlen : (groups.map group_value).length = 6 := by
      rw [List.length_map, hg.six]
    exact ⟨⟨groups.map group_value, hlen⟩, sep, groups, hg, htext, rfl⟩

end MacAddress

end Joker
