/-
The wire format is a bijection between headers and their encodings:
`deserialize_header_eq_some_iff` says exactly which buffers parse, to
what, and how much of them is read.

# Shape of the argument

`wire h` is the encoding as one list. Every part of it is shown to be
read back by the part of the decoder that covers it — the big-endian
word through its value (`word_toNat`, after which both directions are
linear arithmetic), an address through `copy_mac`, the candidate list
through the induction of the read loop — and the fixed part is the
destructuring of the first thirteen bytes.
-/
import Joker.Model.Header

namespace Joker

-- ======================================================= the encoding

/-- A 32-bit value, most significant byte first. -/
def be32 (v : UInt32) : Bytes := put_u32_be [] v

/-- The bytes of an encoded header. -/
def wire (h : JokerHeader) : Bytes :=
  h.type.toByte :: h.ttl :: UInt8.ofNat h.other_candidates.length
    :: (be32 h.packet_id ++ h.final_destination.bytes
      ++ h.other_candidates.flatMap MacAddress.bytes)

theorem foldl_append_bytes (cs : List MacAddress) :
    ∀ out : Bytes, cs.foldl (fun out c => out ++ c.bytes) out
      = out ++ cs.flatMap MacAddress.bytes := by
  induction cs with
  | nil => intro out; simp
  | cons c cs ih =>
      intro out
      rw [List.foldl_cons, ih, List.flatMap_cons, List.append_assoc]

/-- `serialize_header` succeeds and appends the encoding. -/
theorem serialize_header_eq (h : JokerHeader) (out : Bytes) :
    serialize_header h out = (true, out ++ wire h) := by
  unfold serialize_header wire be32 put_u32_be
  simp only [foldl_append_bytes, List.append_assoc, List.cons_append,
    List.nil_append]

theorem flatMap_bytes_length (cs : List MacAddress) :
    (cs.flatMap MacAddress.bytes).length = 6 * cs.length := by
  induction cs with
  | nil => rfl
  | cons c cs ih =>
      rw [List.flatMap_cons, List.length_append, c.length_bytes, ih,
        List.length_cons]
      omega

theorem be32_length (v : UInt32) : (be32 v).length = 4 := rfl

/-- The encoding is as long as `WireSize` says. -/
theorem wire_length (h : JokerHeader) : (wire h).length = h.WireSize := by
  unfold wire JokerHeader.WireSize
  simp only [List.length_cons, List.length_append, be32_length,
    h.final_destination.length_bytes, flatMap_bytes_length]
  omega

-- ==================================================== big-endian words

/-- The word four bytes assemble to. -/
def word (a b c d : UInt8) : UInt32 :=
  (a.toUInt32 <<< 24) ||| (b.toUInt32 <<< 16) ||| (c.toUInt32 <<< 8)
    ||| d.toUInt32

/-- The assembled word by value: the shifted bytes do not overlap. -/
theorem word_toNat (a b c d : UInt8) :
    (word a b c d).toNat
      = ((a.toNat * 256 + b.toNat) * 256 + c.toNat) * 256 + d.toNat := by
  have ha := a.toNat_lt
  have hb := b.toNat_lt
  have hc := c.toNat_lt
  have hd := d.toNat_lt
  have hmod : ∀ x k : Nat, x * 2 ^ k < 4294967296 →
      x <<< k % 4294967296 = x <<< k := by
    intro x k hx
    rw [Nat.shiftLeft_eq, Nat.mod_eq_of_lt hx]
  have h1 := hmod a.toNat 24 (by omega)
  have h2 := hmod b.toNat 16 (by omega)
  have h3 := hmod c.toNat 8 (by omega)
  unfold word
  simp only [UInt32.toNat_or, UInt32.toNat_shiftLeft, UInt8.toNat_toUInt32,
    UInt32.reduceToNat, Nat.reduceMod, Nat.reducePow, h1, h2, h3]
  rw [Nat.or_assoc, Nat.or_assoc,
    ← Nat.shiftLeft_add_eq_or_of_lt (by omega : d.toNat < 2 ^ 8),
    ← Nat.shiftLeft_add_eq_or_of_lt (b := c.toNat <<< 8 + d.toNat)
      (by rw [Nat.shiftLeft_eq]; omega),
    ← Nat.shiftLeft_add_eq_or_of_lt (by simp only [Nat.shiftLeft_eq]; omega)]
  simp only [Nat.shiftLeft_eq]
  omega

/-- A byte of a word, by value. -/
theorem byte_toNat (v : UInt32) :
    ((v &&& 0xff).toUInt8).toNat = v.toNat % 256 := by
  have h : v.toNat &&& 255 = v.toNat % 2 ^ 8 :=
    Nat.and_two_pow_sub_one_eq_mod v.toNat 8
  simp only [UInt32.toNat_toUInt8, UInt32.toNat_and, UInt32.reduceToNat, h]
  omega

theorem shiftRight_toNat (v : UInt32) :
    (v >>> 24).toNat = v.toNat / 16777216
      ∧ (v >>> 16).toNat = v.toNat / 65536
      ∧ (v >>> 8).toNat = v.toNat / 256 := by
  simp [Nat.shiftRight_eq_div_pow]

/-- Reading back the four bytes of a word gives the word. -/
theorem word_bytes (v : UInt32) :
    word ((v >>> 24) &&& 0xff).toUInt8 ((v >>> 16) &&& 0xff).toUInt8
      ((v >>> 8) &&& 0xff).toUInt8 (v &&& 0xff).toUInt8 = v := by
  obtain ⟨h24, h16, h8⟩ := shiftRight_toNat v
  apply UInt32.toNat_inj.mp
  rw [word_toNat, byte_toNat, byte_toNat, byte_toNat, byte_toNat, h24, h16, h8]
  have := v.toNat_lt
  omega

/-- Writing out an assembled word gives its four bytes. -/
theorem be32_word (a b c d : UInt8) : be32 (word a b c d) = [a, b, c, d] := by
  obtain ⟨h24, h16, h8⟩ := shiftRight_toNat (word a b c d)
  have hw := word_toNat a b c d
  have ha := a.toNat_lt
  have hb := b.toNat_lt
  have hc := c.toNat_lt
  have hd := d.toNat_lt
  unfold be32 put_u32_be
  simp only [List.nil_append, List.cons.injEq, and_true]
  refine ⟨?_, ?_, ?_, ?_⟩ <;> apply UInt8.toNat_inj.mp <;> rw [byte_toNat]
  · rw [h24, hw]; omega
  · rw [h16, hw]; omega
  · rw [h8, hw]; omega
  · rw [hw]; omega

-- ============================================================ addresses

/-- `copy_n` reads six bytes that are there. -/
theorem copy_mac_bytes {data : Bytes} {off : Nat}
    (h : off + 6 ≤ data.length) :
    (copy_mac data off).bytes = (data.drop off).take 6 := by
  have hget : ∀ k, data.getD (off + k) 0 = (data.drop off).getD k 0 := by
    intro k
    rw [List.getD_eq_getElem?_getD, List.getD_eq_getElem?_getD,
      List.getElem?_drop]
  have hlen : 6 ≤ (data.drop off).length := by
    rw [List.length_drop]
    omega
  show [data.getD (off + 0) 0, _, _, _, _, _] = _
  rw [hget, hget, hget, hget, hget, hget]
  generalize data.drop off = l at hlen
  match l, hlen with
  | _ :: _ :: _ :: _ :: _ :: _ :: _, _ => rfl

/-- Reading where an address was written gives the address. -/
theorem copy_mac_append (lead post : Bytes) (m : MacAddress) :
    copy_mac (lead ++ (m.bytes ++ post)) lead.length = m := by
  apply MacAddress.ext_bytes
  rw [copy_mac_bytes]
  · rw [List.drop_left, List.take_append_of_le_length (by rw [m.length_bytes]),
      List.take_of_length_le (by rw [m.length_bytes])]
  · simp only [List.length_append, m.length_bytes]
    omega

-- ======================================================= candidate lists

/-- The read loop advances six bytes a candidate. -/
theorem read_candidates_off (data : Bytes) (n : Nat) :
    ∀ off, (read_candidates data off n).2 = off + 6 * n := by
  induction n with
  | zero => intro off; rfl
  | succ n ih =>
      intro off
      show (read_candidates data (off + 6) n).2 = _
      rw [ih]
      omega

theorem read_candidates_length (data : Bytes) (n : Nat) :
    ∀ off, (read_candidates data off n).1.length = n := by
  induction n with
  | zero => intro off; rfl
  | succ n ih =>
      intro off
      show (read_candidates data (off + 6) n).1.length + 1 = _
      rw [ih]

/-- What the read loop read, written out again, is what it read from. -/
theorem read_candidates_bytes (data : Bytes) (n : Nat) :
    ∀ off, off + 6 * n ≤ data.length →
      (read_candidates data off n).1.flatMap MacAddress.bytes
        = (data.drop off).take (6 * n) := by
  induction n with
  | zero => intro off _; simp [read_candidates]
  | succ n ih =>
      intro off h
      show (copy_mac data off).bytes
        ++ (read_candidates data (off + 6) n).1.flatMap MacAddress.bytes = _
      rw [copy_mac_bytes (by omega), ih (off + 6) (by omega),
        show 6 * (n + 1) = 6 + 6 * n by omega, List.take_add, List.drop_drop]

/-- The read loop reads back a written candidate list. -/
theorem read_candidates_append (post : Bytes) (cs : List MacAddress) :
    ∀ lead : Bytes,
      (read_candidates (lead ++ (cs.flatMap MacAddress.bytes ++ post))
        lead.length cs.length).1 = cs := by
  induction cs with
  | nil => intro lead; rfl
  | cons c cs ih =>
      intro lead
      have htail := ih (lead ++ c.bytes)
      rw [List.length_append, c.length_bytes, List.append_assoc] at htail
      rw [List.flatMap_cons, List.append_assoc]
      show copy_mac _ _ :: (read_candidates _ (lead.length + 6) cs.length).1 = _
      rw [copy_mac_append, htail]

-- ======================================================== the fixed part

theorem PacketType.ofByte_toByte (t : PacketType) : ofByte t.toByte = t := by
  cases t <;> rfl

theorem PacketType.toByte_le (t : PacketType) : ¬ t.toByte > 2 := by
  cases t <;> decide

theorem PacketType.toByte_ofByte {b : UInt8} (h : ¬ b > 2) :
    (ofByte b).toByte = b := by
  have hle : b.toNat ≤ 2 := UInt8.le_iff_toNat_le.mp (UInt8.not_lt.mp h)
  unfold ofByte
  by_cases h0 : b = 0
  · rw [if_pos h0, h0]
    rfl
  · by_cases h1 : b = 1
    · rw [if_neg h0, if_pos h1, h1]
      rfl
    · rw [if_neg h0, if_neg h1]
      apply UInt8.toNat_inj.mp
      have h0' : b.toNat ≠ 0 := fun e => h0 (UInt8.toNat_inj.mp e)
      have h1' : b.toNat ≠ 1 := fun e => h1 (UInt8.toNat_inj.mp e)
      show 2 = b.toNat
      omega

/-- The decoder on a buffer that holds the fixed part. -/
theorem deserialize_header_fixed {data : Bytes} {t l n i₀ i₁ i₂ i₃ : UInt8}
    {d : MacAddress} {rest : Bytes} (consumed : Nat)
    (hdata : data
      = t :: l :: n :: i₀ :: i₁ :: i₂ :: i₃ :: (d.bytes ++ rest)) :
    deserialize_header data consumed
      = if t > 2 then (none, consumed)
        else if rest.length < n.toNat * 6 then (none, consumed)
        else
          (some {
            type := PacketType.ofByte t
            ttl := l
            num_candidates := n
            packet_id := word i₀ i₁ i₂ i₃
            final_destination := d
            other_candidates := (read_candidates data 13 n.toNat).1 },
           13 + 6 * n.toNat) := by
  have hd : copy_mac data 7 = d := by
    rw [hdata]
    exact copy_mac_append [t, l, n, i₀, i₁, i₂, i₃] rest d
  have hlen : data.length = 13 + rest.length := by
    rw [hdata]
    simp only [List.length_cons, List.length_append, d.length_bytes]
    omega
  have h0 : data.getD 0 0 = t := by rw [hdata]; rfl
  have h1 : data.getD 1 0 = l := by rw [hdata]; rfl
  have h2 : data.getD 2 0 = n := by rw [hdata]; rfl
  have hid : get_u32_be data 3 = some (word i₀ i₁ i₂ i₃) := by
    unfold get_u32_be
    rw [if_neg (by omega), hdata]
    rfl
  unfold deserialize_header
  rw [if_neg (by omega), hid, h0, h1, h2, hd, hlen]
  simp only [Nat.reduceAdd, Nat.add_sub_cancel_left, read_candidates_off,
    PacketType.toByte]

-- ======================================================= the bijection

/-- A header whose list fits the count byte is decoded from its
encoding, whatever follows; the count byte is the list's length. -/
theorem deserialize_wire {h : JokerHeader} (payload : Bytes) (consumed : Nat)
    (hn : h.num_candidates.toNat = h.other_candidates.length) :
    deserialize_header (wire h ++ payload) consumed
      = (some h, h.WireSize) := by
  obtain ⟨type, ttl, num, id, dest, cands⟩ := h
  have hnum : UInt8.ofNat cands.length = num := by
    apply UInt8.toNat_inj.mp
    rw [UInt8.toNat_ofNat', ← hn, Nat.mod_eq_of_lt num.toNat_lt]
  -- the encoding, with the id's bytes spelled out
  have hdata : wire ⟨type, ttl, num, id, dest, cands⟩ ++ payload
      = type.toByte :: ttl :: num :: ((id >>> 24) &&& 0xff).toUInt8
        :: ((id >>> 16) &&& 0xff).toUInt8 :: ((id >>> 8) &&& 0xff).toUInt8
        :: (id &&& 0xff).toUInt8
        :: (dest.bytes ++ (cands.flatMap MacAddress.bytes ++ payload)) := by
    unfold wire
    rw [hnum]
    simp only [be32, put_u32_be, List.nil_append, List.cons_append,
      List.append_assoc]
  have hlead : type.toByte :: ttl :: num :: ((id >>> 24) &&& 0xff).toUInt8
        :: ((id >>> 16) &&& 0xff).toUInt8 :: ((id >>> 8) &&& 0xff).toUInt8
        :: (id &&& 0xff).toUInt8
        :: (dest.bytes ++ (cands.flatMap MacAddress.bytes ++ payload))
      = ([type.toByte, ttl, num] ++ be32 id ++ dest.bytes)
        ++ (cands.flatMap MacAddress.bytes ++ payload) := by
    simp only [be32, put_u32_be, List.nil_append, List.cons_append]
  have hcands : (read_candidates (wire ⟨type, ttl, num, id, dest, cands⟩
      ++ payload) 13 num.toNat).1 = cands := by
    have hread := read_candidates_append payload cands
      ([type.toByte, ttl, num] ++ be32 id ++ dest.bytes)
    simp only [List.length_append, dest.length_bytes, be32_length] at hread
    rw [hdata, hlead, hn]
    exact hread
  rw [deserialize_header_fixed consumed hdata, if_neg type.toByte_le, if_neg,
    hcands, word_bytes, PacketType.ofByte_toByte]
  · unfold JokerHeader.WireSize
    rw [hn]
  · rw [List.length_append, flatMap_bytes_length, hn]
    show ¬ 6 * cands.length + payload.length < cands.length * 6
    omega

/-- A buffer long enough for the fixed part, read as its fields. -/
theorem exists_fixed {data : Bytes} (h : 13 ≤ data.length) :
    ∃ t l n i₀ i₁ i₂ i₃, ∃ d : MacAddress, ∃ rest,
      data = t :: l :: n :: i₀ :: i₁ :: i₂ :: i₃ :: (d.bytes ++ rest) := by
  match data, h with
  | t :: l :: n :: i₀ :: i₁ :: i₂ :: i₃ :: d₀ :: d₁ :: d₂ :: d₃ :: d₄ :: d₅
      :: rest, _ =>
      exact ⟨t, l, n, i₀, i₁, i₂, i₃, ⟨[d₀, d₁, d₂, d₃, d₄, d₅], rfl⟩, rest,
        rfl⟩

/-- What a successful parse returns is what the buffer encodes. -/
theorem wire_of_deserialize {data : Bytes} {consumed n : Nat}
    {h : JokerHeader}
    (hp : deserialize_header data consumed = (some h, n)) :
    data = wire h ++ data.drop n ∧ n = h.WireSize
      ∧ h.num_candidates.toNat = h.other_candidates.length := by
  by_cases hlen : 13 ≤ data.length
  case neg =>
    unfold deserialize_header at hp
    rw [if_pos (by omega)] at hp
    cases hp
  obtain ⟨t, l, num, i₀, i₁, i₂, i₃, d, rest, hdata⟩ := exists_fixed hlen
  rw [deserialize_header_fixed consumed hdata] at hp
  by_cases ht : t > 2
  · rw [if_pos ht] at hp
    cases hp
  by_cases hrest : rest.length < num.toNat * 6
  · rw [if_neg ht, if_pos hrest] at hp
    cases hp
  rw [if_neg ht, if_neg hrest] at hp
  have hlist : 13 + 6 * num.toNat ≤ data.length := by
    rw [hdata]
    simp only [List.length_cons, List.length_append, d.length_bytes]
    omega
  have hcount := read_candidates_length data num.toNat 13
  have hbytes := read_candidates_bytes data num.toNat 13 hlist
  generalize (read_candidates data 13 num.toNat).1 = cands at hp hcount hbytes
  cases hp
  refine ⟨?_, ?_, hcount.symm⟩
  · have hdrop : data.drop 13 = rest := by
      have hlead : ([t, l, num, i₀, i₁, i₂, i₃] ++ d.bytes).length = 13 := by
        rw [List.length_append, d.length_bytes]
        rfl
      have hdrop : (([t, l, num, i₀, i₁, i₂, i₃] ++ d.bytes) ++ rest).drop 13
          = rest := List.drop_left' hlead
      rw [hdata]
      exact hdrop
    unfold wire
    rw [hcount, UInt8.ofNat_toNat, be32_word, PacketType.toByte_ofByte ht,
      hbytes, ← List.drop_drop, hdrop]
    simp only [List.cons_append, List.nil_append, List.append_assoc,
      List.take_append_drop]
    exact hdata
  · unfold JokerHeader.WireSize
    rw [hcount]

/-- A failed parse consumes nothing. -/
theorem deserialize_none_consumed {data : Bytes} {consumed n : Nat}
    (hp : deserialize_header data consumed = (none, n)) : n = consumed := by
  unfold deserialize_header at hp
  dsimp only at hp
  repeat' split at hp
  all_goals cases hp
  all_goals rfl

/-- Exactly which buffers parse, to what, and how much is read. -/
theorem deserialize_header_eq_some_iff {data : Bytes} {consumed n : Nat}
    {h : JokerHeader} :
    deserialize_header data consumed = (some h, n)
      ↔ n = h.WireSize
        ∧ h.num_candidates.toNat = h.other_candidates.length
        ∧ ∃ payload, data = wire h ++ payload := by
  constructor
  · intro hp
    obtain ⟨hdata, hn, hnum⟩ := wire_of_deserialize hp
    exact ⟨hn, hnum, _, hdata⟩
  · intro hall
    obtain ⟨rfl, hnum, payload, rfl⟩ := hall
    exact deserialize_wire payload consumed hnum

-- ========================================================= validation

/-- The duplicate scan of `validate_header` finds none exactly in a list
without repetitions, clear of what was seen before. -/
theorem all_new_iff (cs : List MacAddress) :
    ∀ seen, all_new seen cs = true ↔ cs.Nodup ∧ ∀ c ∈ cs, c ∉ seen := by
  induction cs with
  | nil => intro seen; simp [all_new]
  | cons c cs ih =>
      intro seen
      rw [all_new, List.nodup_cons]
      split
      · next hc =>
        refine iff_of_false Bool.false_ne_true ?_
        intro hall
        obtain ⟨-, hseen⟩ := hall
        exact hseen c List.mem_cons_self hc
      · next hc =>
        rw [ih]
        constructor
        · intro hall
          obtain ⟨hnd, hseen⟩ := hall
          refine ⟨⟨fun hmem => ?_, hnd⟩, fun d hd => ?_⟩
          · exact hseen c hmem List.mem_cons_self
          · rcases List.mem_cons.mp hd with rfl | hd
            · exact hc
            · exact fun h => hseen d hd (List.mem_cons_of_mem _ h)
        · intro hall
          obtain ⟨⟨hmem, hnd⟩, hseen⟩ := hall
          refine ⟨hnd, fun d hd h => ?_⟩
          rcases List.mem_cons.mp h with rfl | h
          · exact hmem hd
          · exact hseen d (List.mem_cons_of_mem _ hd) h

/-- What `validate_header` accepts, in full. -/
theorem validate_header_iff (header : JokerHeader) (max_candidates : UInt8) :
    validate_header header max_candidates = true
      ↔ header.final_destination.IsBroadcast = false
        ∧ header.final_destination.IsZero = false
        ∧ 1 + header.other_candidates.length ≤ max_candidates.toNat
        ∧ header.other_candidates.Nodup := by
  unfold validate_header
  cases header.final_destination.IsBroadcast with
  | true => simp
  | false =>
      cases header.final_destination.IsZero with
      | true => simp
      | false =>
          simp only [Bool.or_self, Bool.false_eq_true, if_false, true_and]
          split
          · next h =>
            refine iff_of_false Bool.false_ne_true fun hle => ?_
            exact absurd hle.1 (Nat.not_le.mpr h)
          · next h =>
            rw [all_new_iff]
            refine ⟨fun hnd => ⟨Nat.not_lt.mp h, hnd.1⟩,
              fun hnd => ⟨hnd.2, fun c _ => List.not_mem_nil⟩⟩

/-- In a list without repetitions an element is found where it is. -/
theorem findIdx?_eq_of_nodup {cs : List MacAddress} {m : MacAddress}
    {i : Nat} (hnd : cs.Nodup) (hi : cs[i]? = some m) :
    cs.findIdx? (· = m) = some i := by
  obtain ⟨hlt, hget⟩ := List.getElem?_eq_some_iff.mp hi
  refine List.findIdx?_eq_some_iff_getElem.mpr ⟨hlt, ?_, fun j hj => ?_⟩
  · exact decide_eq_true hget
  · simp only [Bool.not_eq_true, decide_eq_false_iff_not]
    intro hjm
    have hij : j = i := (hnd.getElem_inj_iff).mp (hjm.trans hget.symm)
    omega

-- ================================================= the exact language

/-- The buffer starts with the encoding of the header, whose list fits
the count byte and whose count is the list's length. -/
def Encodes (h : JokerHeader) (data : Bytes) : Prop :=
  ∃ payload, data = (serialize_header h []).2 ++ payload
    ∧ h.other_candidates.length ≤ 255
    ∧ h.num_candidates.toNat = h.other_candidates.length

/-- The decoder accepts what encodes a header, and returns the header. -/
theorem deserialize_eq_some_iff_encodes {data : Bytes} {consumed n : Nat}
    {h : JokerHeader} :
    deserialize_header data consumed = (some h, n)
      ↔ Encodes h data ∧ n = h.WireSize := by
  rw [deserialize_header_eq_some_iff]
  unfold Encodes
  simp only [serialize_header_eq, List.nil_append]
  constructor
  · intro hall
    obtain ⟨hn, hnum, payload, hdata⟩ := hall
    have hlt := h.num_candidates.toNat_lt
    exact ⟨⟨payload, hdata, by omega, hnum⟩, hn⟩
  · intro hall
    obtain ⟨⟨payload, hdata, -, hnum⟩, hn⟩ := hall
    exact ⟨hn, hnum, payload, hdata⟩

/-- No other buffer is accepted, and none of it is consumed. -/
theorem deserialize_eq_none {data : Bytes} (consumed : Nat)
    (h : ∀ header, ¬ Encodes header data) :
    deserialize_header data consumed = (none, consumed) := by
  rcases hp : deserialize_header data consumed with ⟨_ | header, n⟩
  · rw [deserialize_none_consumed hp]
  · exact absurd (deserialize_eq_some_iff_encodes.mp hp).1 (h header)

/-- A buffer encodes at most one header. -/
theorem Encodes.unique {data : Bytes} {h h' : JokerHeader}
    (hd : Encodes h data) (hd' : Encodes h' data) : h = h' := by
  have hp : deserialize_header data 0 = (some h, h.WireSize) :=
    deserialize_eq_some_iff_encodes.mpr ⟨hd, rfl⟩
  have hp' : deserialize_header data 0 = (some h', h'.WireSize) :=
    deserialize_eq_some_iff_encodes.mpr ⟨hd', rfl⟩
  have heq := hp.symm.trans hp'
  injection heq with heq _
  exact Option.some.inj heq

/-- The count byte is written from the list, whatever the field says. -/
theorem encodes_wire (h : JokerHeader) (payload : Bytes)
    (hlen : h.other_candidates.length ≤ 255) :
    Encodes { h with
      num_candidates := UInt8.ofNat h.other_candidates.length }
      (wire h ++ payload) := by
  refine ⟨payload, ?_, hlen, Nat.mod_eq_of_lt (by omega)⟩
  rw [serialize_header_eq]
  rfl

/-- Nothing shorter than an encoding that is cut off is one. -/
theorem not_encodes_of_prefix {h h' : JokerHeader} {data : Bytes}
    (hlen : h.other_candidates.length ≤ 255) (hpre : data <+: wire h)
    (hne : data ≠ wire h) : ¬ Encodes h' data := by
  intro hd
  obtain ⟨rest, hrest⟩ := hpre
  have hd' := hd
  obtain ⟨payload, hdata, hlen', hnum'⟩ := hd'
  -- the whole encoding starts with both headers
  have hwhole : Encodes h' (wire h ++ []) := by
    refine ⟨payload ++ rest, ?_, hlen', hnum'⟩
    rw [List.append_nil, ← hrest, ← List.append_assoc, ← hdata]
  have heq := hwhole.unique (encodes_wire h [] hlen)
  have hwire : (serialize_header h' []).2 = wire h := by
    rw [heq, serialize_header_eq]
    rfl
  have hsize := congrArg List.length hrest
  rw [hdata, hwire] at hsize
  simp only [List.length_append] at hsize
  have hnil : payload = [] := List.length_eq_zero_iff.mp (by omega)
  exact hne (by rw [hdata, hwire, hnil, List.append_nil])

/-- Which buffers are rejected, by what is wrong with them. -/
theorem deserialize_eq_none_iff (data : Bytes) (consumed : Nat) :
    deserialize_header data consumed = (none, consumed)
      ↔ data.length < 13 ∨ data.getD 0 0 > 2
        ∨ data.length < 13 + 6 * (data.getD 2 0).toNat := by
  by_cases hlen : data.length < 13
  · refine iff_of_true ?_ (Or.inl hlen)
    unfold deserialize_header
    rw [if_pos hlen]
  · obtain ⟨t, l, num, i₀, i₁, i₂, i₃, d, rest, hdata⟩ :=
      exists_fixed (Nat.not_lt.mp hlen)
    have h0 : data.getD 0 0 = t := by rw [hdata]; rfl
    have h2 : data.getD 2 0 = num := by rw [hdata]; rfl
    have hsize : data.length = 13 + rest.length := by
      rw [hdata]
      simp only [List.length_cons, List.length_append, d.length_bytes]
      omega
    rw [deserialize_header_fixed consumed hdata, h0, h2, hsize]
    by_cases ht : t > 2
    · rw [if_pos ht]
      exact iff_of_true rfl (Or.inr (Or.inl ht))
    · rw [if_neg ht]
      by_cases hrest : rest.length < num.toNat * 6
      · rw [if_pos hrest]
        refine iff_of_true rfl (Or.inr (Or.inr ?_))
        omega
      · rw [if_neg hrest]
        refine iff_of_false (by simp) ?_
        intro hall
        rcases hall with hall | hall | hall
        · omega
        · exact ht hall
        · omega

/-- The decoder accepts exactly the encodings of headers, followed by any
payload, and returns the one header the buffer encodes with its size; it
rejects short buffers, unknown type bytes and cut-off lists, proper
prefixes of encodings among them, and then consumes nothing. -/
theorem decoder_exact (data : Bytes) (consumed : Nat) :
    (∀ h c, deserialize_header data consumed = (some h, c)
      ↔ ∃ payload, data = (serialize_header h []).2 ++ payload
        ∧ h.other_candidates.length ≤ 255
        ∧ h.num_candidates.toNat = h.other_candidates.length
        ∧ c = h.WireSize)
    ∧ (∀ h h', Encodes h data → Encodes h' data → h = h')
    ∧ ((∀ h, ¬ Encodes h data) →
        deserialize_header data consumed = (none, consumed))
    ∧ (deserialize_header data consumed = (none, consumed)
      ↔ data.length < 13 ∨ data.getD 0 0 > 2
        ∨ data.length < 13 + 6 * (data.getD 2 0).toNat)
    ∧ ∀ h : JokerHeader, h.other_candidates.length ≤ 255 →
        data <+: (serialize_header h []).2 → data ≠ (serialize_header h []).2 →
        deserialize_header data consumed = (none, consumed) := by
  refine ⟨fun h c => ?_, fun _ _ hd hd' => hd.unique hd',
    deserialize_eq_none consumed, deserialize_eq_none_iff data consumed, ?_⟩
  · rw [deserialize_eq_some_iff_encodes]
    unfold Encodes
    constructor
    · intro hall
      obtain ⟨⟨payload, hdata, hlen, hnum⟩, hc⟩ := hall
      exact ⟨payload, hdata, hlen, hnum, hc⟩
    · intro hall
      obtain ⟨payload, hdata, hlen, hnum, hc⟩ := hall
      exact ⟨⟨payload, hdata, hlen, hnum⟩, hc⟩
  · intro h hlen hpre hne
    rw [serialize_header_eq] at hpre hne
    exact deserialize_eq_none consumed fun _ =>
      not_encodes_of_prefix hlen hpre hne

end Joker
