import Sankaku.Model.Psk

namespace Sankaku

def byteChar (b : UInt8) : Char := Char.ofNat b.toNat

theorem asBytes_eq (s : String) : asBytes s = s.toList.flatMap String.utf8EncodeChar := by
  change s.toByteArray.data.toList = _
  rw [← String.utf8Encode_toList, List.utf8Encode, List.data_toByteArray]

theorem utf8EncodeChar_ascii (h : c.toNat < 128) : String.utf8EncodeChar c = [UInt8.ofNat c.toNat] := by
  have hle : c.val.toNat ≤ 0x7f := Nat.le_of_lt_succ h
  unfold String.utf8EncodeChar
  rw [if_pos hle]
  rfl

/-- Any other character has a byte that is not ASCII. -/
theorem utf8EncodeChar_wide (h : ¬ c.toNat < 128) : ∃ b ∈ String.utf8EncodeChar c, ¬ b.toNat < 128 := by
  have wide : ∀ k m : Nat, m < 2 ^ 7 → 128 ≤ k → k < 129 → ¬ (UInt8.ofNat (m + k)).toNat < 128 := by
    intro k m hm hk hk'
    rw [UInt8.toNat_ofNat']
    omega
  have hle : ¬ c.val.toNat ≤ 0x7f := fun hle => h (Nat.lt_succ_of_le hle)
  unfold String.utf8EncodeChar
  rw [if_neg hle]
  split
  · exact ⟨_, List.mem_cons_of_mem _ List.mem_cons_self, wide 128 _ (by omega) (by omega) (by omega)⟩
  · split
    · exact ⟨_, List.mem_cons_of_mem _ List.mem_cons_self, wide 128 _ (by omega) (by omega) (by omega)⟩
    · exact ⟨_, List.mem_cons_of_mem _ List.mem_cons_self, wide 128 _ (by omega) (by omega) (by omega)⟩

theorem byteChar_ascii (h : c.toNat < 128) : byteChar (UInt8.ofNat c.toNat) = c := by
  rw [byteChar, UInt8.toNat_ofNat', Nat.mod_eq_of_lt (by omega), Char.ofNat_toNat]

theorem byteChar_toNat (b : UInt8) : (byteChar b).toNat = b.toNat := by
  have hlt := b.toNat_lt
  have hvalid : b.toNat.isValidChar := .inl (by omega)
  rw [byteChar, Char.ofNat, dif_pos hvalid]
  rfl

theorem byteChar_encode {text : List Char} (h : ∀ c ∈ text, c.toNat < 128) :
    (text.flatMap String.utf8EncodeChar).map byteChar = text := by
  induction text with
  | nil => rfl
  | cons c text ih =>
    have hc := h c List.mem_cons_self
    rw [List.flatMap_cons, utf8EncodeChar_ascii hc, List.map_append, List.map_singleton,
      byteChar_ascii hc, ih (fun d hd => h d (List.mem_cons_of_mem c hd))]
    rfl

theorem ascii_of_encode {text : List Char}
    (h : ∀ b ∈ text.flatMap String.utf8EncodeChar, b.toNat < 128) : ∀ c ∈ text, c.toNat < 128 := by
  intro c hc
  by_contra hwide
  obtain ⟨b, hb, hbig⟩ := utf8EncodeChar_wide hwide
  exact hbig (h b (List.mem_flatMap.mpr ⟨c, hc, hb⟩))

theorem fromUTF8_asBytes {chunk : Bytes} (h : String.fromUTF8? chunk.toByteArray = some pair) :
    asBytes pair = chunk := by
  unfold String.fromUTF8? at h
  split at h
  · cases h
    change chunk.toByteArray.data.toList = chunk
    rw [List.data_toByteArray]
  · cases h

theorem fromUTF8_ascii {chunk : Bytes} (h : ∀ b ∈ chunk, b.toNat < 128) :
    ∃ pair, String.fromUTF8? chunk.toByteArray = some pair := by
  have hchars : chunk = (chunk.map byteChar).flatMap String.utf8EncodeChar := by
    rw [List.flatMap_map]
    induction chunk with
    | nil => rfl
    | cons b chunk ih =>
      have hb := h b List.mem_cons_self
      rw [List.flatMap_cons, utf8EncodeChar_ascii (by rw [byteChar_toNat]; exact hb), byteChar_toNat,
        UInt8.ofNat_toNat, ← ih (fun d hd => h d (List.mem_cons_of_mem b hd))]
      rfl
  have hvalid : chunk.toByteArray.IsValidUTF8 := by
    rw [hchars]
    exact ByteArray.isValidUTF8_utf8Encode
  refine ⟨String.fromUTF8 _ hvalid, ?_⟩
  unfold String.fromUTF8?
  rw [dif_pos hvalid]

/-- What one turn of the loop makes of a pair. -/
def pairValue (chunk : Bytes) : Option UInt8 :=
  (String.fromUTF8? chunk.toByteArray).bind u8FromStrRadix16

theorem radixDigits_cons : radixDigits r (b :: digits) = some v ↔
    ∃ d, Hex.value (byteChar b) = some d ∧ r * 16 + d < 2 ^ 8 ∧
      radixDigits (r * 16 + d) digits = some v := by
  rw [radixDigits, byteChar]
  cases Hex.value (Char.ofNat b.toNat) with
  | none => simp
  | some d => simp

/-- The number of a pair: two digits, or a sign and a digit. -/
theorem radixPair_iff {a b : UInt8} :
    (if a = 0x2B then radixDigits 0 [b] else radixDigits 0 [a, b]) = some v ↔ ∃ h l,
      Hex.value (if byteChar a = '+' then '0' else byteChar a) = some h ∧
        Hex.value (byteChar b) = some l ∧ v = UInt8.ofNat (16 * h + l) := by
  have sign : byteChar a = '+' ↔ a = 0x2B := by
    rw [← Char.toNat_inj, byteChar_toNat, ← UInt8.toNat_inj]
    rfl
  by_cases ha : a = 0x2B
  · rw [if_pos ha, if_pos (sign.mpr ha), radixDigits_cons]
    constructor
    · rintro ⟨l, hl, _, hv⟩
      cases hv
      exact ⟨0, l, rfl, hl, by rw [Nat.mul_comm]⟩
    · rintro ⟨h, l, hh, hl, rfl⟩
      have hsmall := (Hex.value_some hl).1
      cases hh
      exact ⟨l, hl, by omega, rfl⟩
  · rw [if_neg ha, if_neg (ha ∘ sign.mp), radixDigits_cons]
    constructor
    · rintro ⟨h, hh, _, hrest⟩
      obtain ⟨l, hl, _, hv⟩ := radixDigits_cons.mp hrest
      cases hv
      refine ⟨h, l, hh, hl, ?_⟩
      congr 1
      omega
    · rintro ⟨h, l, hh, hl, rfl⟩
      have hhigh := (Hex.value_some hh).1
      have hlow := (Hex.value_some hl).1
      refine ⟨h, hh, by omega, radixDigits_cons.mpr ⟨l, hl, by omega, ?_⟩⟩
      rw [radixDigits]
      congr 2
      omega

theorem pairValue_iff : pairValue [a, b] = some v ↔ ∃ h l,
    Hex.value (if byteChar a = '+' then '0' else byteChar a) = some h ∧
      Hex.value (byteChar b) = some l ∧ v = UInt8.ofNat (16 * h + l) := by
  have hradix : ∀ pair, String.fromUTF8? [a, b].toByteArray = some pair →
      u8FromStrRadix16 pair = if a = 0x2B then radixDigits 0 [b] else radixDigits 0 [a, b] := by
    intro pair hpair
    rw [u8FromStrRadix16, fromUTF8_asBytes hpair]
    simp only [List.cons_ne_nil, false_and, if_false]
  rw [← radixPair_iff, pairValue, Option.bind_eq_some_iff]
  constructor
  · rintro ⟨pair, hpair, hv⟩
    rw [← hradix pair hpair, hv]
  · intro hv
    obtain ⟨h, l, hh, hl, _⟩ := radixPair_iff.mp hv
    have ha : a.toNat < 128 := by
      by_cases hplus : byteChar a = '+'
      · rw [← byteChar_toNat, hplus]
        decide
      · rw [if_neg hplus] at hh
        rw [← byteChar_toNat]
        exact (Hex.value_isDigit hh).ascii
    have hb : b.toNat < 128 := by
      rw [← byteChar_toNat]
      exact (Hex.value_isDigit hl).ascii
    have hascii : ∀ d ∈ [a, b], d.toNat < 128 := by
      intro d hd
      rcases List.mem_pair.mp hd with rfl | rfl
      · exact ha
      · exact hb
    obtain ⟨pair, hpair⟩ := fromUTF8_ascii hascii
    exact ⟨pair, hpair, by rw [hradix pair hpair, hv]⟩

theorem Octets.set_take (out : Octets n) (h : index < n) (byte : UInt8) :
    (out.set index byte).val.take (index + 1) = out.val.take index ++ [byte] := by
  have hlt : index < out.val.length := by
    rw [out.property]
    exact h
  rw [Octets.set, List.take_add_one, List.take_set_of_le (Nat.le_refl _), List.getElem?_set_self hlt]
  rfl

theorem parsePskPairs_refused (out : Octets 32) (index : Nat) (chunks : List Bytes)
    (h : pairValue chunk = none) :
    ∃ message, parsePskPairs out index (chunk :: chunks) = .error (.error message) := by
  rw [parsePskPairs]
  split
  · exact ⟨_, rfl⟩
  · rename_i pair hpair
    rw [pairValue, hpair, Option.bind_some] at h
    rw [h]
    exact ⟨_, rfl⟩

theorem parsePskPairs_step (out : Octets 32) (hindex : index < 32) (chunks : List Bytes)
    (h : pairValue chunk = some byte) : parsePskPairs out index (chunk :: chunks) =
      parsePskPairs (out.set index byte) (index + 1) chunks := by
  obtain ⟨pair, hpair, hradix⟩ := Option.bind_eq_some_iff.mp h
  rw [parsePskPairs, hpair]
  simp only [hradix]
  exact if_pos hindex

/-- The loop fills the key from its index on, and stays inside it. -/
theorem parsePskPairs_iff (out : Octets 32) (index : Nat) (chunks : List Bytes)
    (h : index + chunks.length = 32) :
    parsePskPairs out index chunks ≠ .error .panicked ∧
      ∀ key, parsePskPairs out index chunks = .ok key ↔ ∃ bytes,
        List.Forall₂ (fun chunk byte => pairValue chunk = some byte) chunks bytes ∧
          key.val = out.val.take index ++ bytes := by
  induction chunks generalizing out index with
  | nil =>
    have hall : out.val.take index = out.val :=
      List.take_of_length_le (by rw [out.property, ← h]; exact Nat.le_refl _)
    constructor
    · intro hpanic
      cases hpanic
    · intro key
      rw [hall]
      constructor
      · intro heq
        cases heq
        exact ⟨[], .nil, (List.append_nil _).symm⟩
      · rintro ⟨_, hforall, hkey⟩
        cases hforall
        rw [List.append_nil] at hkey
        rw [parsePskPairs, Subtype.ext hkey]
  | cons chunk chunks ih =>
    rw [List.length_cons] at h
    cases hvalue : pairValue chunk with
    | none =>
      obtain ⟨message, hfail⟩ := parsePskPairs_refused out index chunks hvalue
      rw [hfail]
      constructor
      · intro hpanic
        cases hpanic
      · intro key
        constructor
        · intro heq
          cases heq
        · rintro ⟨_, hforall, _⟩
          cases hforall with
          | cons hbyte _ =>
            rw [hvalue] at hbyte
            cases hbyte
    | some byte =>
      have hindex : index < 32 := by omega
      obtain ⟨hpanic, hok⟩ := ih (out.set index byte) (index + 1) (by omega)
      rw [parsePskPairs_step out hindex chunks hvalue]
      refine ⟨hpanic, fun key => (hok key).trans ?_⟩
      rw [Octets.set_take out hindex]
      constructor
      · rintro ⟨bytes, hforall, hkey⟩
        exact ⟨byte :: bytes, .cons hvalue hforall, by rw [hkey, List.append_assoc]; rfl⟩
      · rintro ⟨_, hforall, hkey⟩
        cases hforall with
        | cons hbyte hrest =>
          rw [hvalue] at hbyte
          cases hbyte
          exact ⟨_, hrest, by rw [hkey, List.append_assoc]; rfl⟩

/-- A sign before a digit counts as a zero. -/
def plusAsZero : List Char → List Char
  | high :: low :: text => (if high = '+' then '0' else high) :: low :: plusAsZero text
  | text => text

theorem plusAsZero_length (text : List Char) : (plusAsZero text).length = text.length := by
  fun_induction plusAsZero text with
  | case1 high low text ih => rw [List.length_cons, List.length_cons, ih]; rfl
  | case2 text _ => rfl

theorem plusAsZero_unsigned (h : '+' ∉ text) : plusAsZero text = text := by
  fun_induction plusAsZero text with
  | case1 high low text ih =>
    rw [List.mem_cons, List.mem_cons, not_or, not_or] at h
    rw [if_neg (Ne.symm h.1), ih h.2.2]
  | case2 text _ => rfl

theorem mem_plusAsZero {text : List Char} (h : c ∈ text) : c ∈ plusAsZero text ∨ c = '+' := by
  fun_induction plusAsZero text with
  | case1 high low text ih =>
    rcases List.mem_cons.mp h with rfl | h
    · by_cases hplus : c = '+'
      · exact .inr hplus
      · rw [if_neg hplus]
        exact .inl List.mem_cons_self
    · rcases List.mem_cons.mp h with rfl | h
      · exact .inl (List.mem_cons_of_mem _ List.mem_cons_self)
      · exact (ih h).imp (fun hmem => List.mem_cons_of_mem _ (List.mem_cons_of_mem _ hmem)) id
  | case2 text _ => exact .inl h

theorem ascii_of_decode {text : List Char} (h : Hex.decode (plusAsZero text) = some bytes) :
    ∀ c ∈ text, c.toNat < 128 := by
  intro c hc
  rcases mem_plusAsZero hc with hmem | rfl
  · exact (Hex.decode_digits h c hmem).ascii
  · decide

theorem chunksExact2_length (bytes : Bytes) : (chunksExact2 bytes).length = bytes.length / 2 := by
  fun_induction chunksExact2 bytes with
  | case1 a b bytes ih =>
    rw [List.length_cons, List.length_cons, List.length_cons, ih]
    omega
  | case2 bytes hshort =>
    match bytes with
    | [] => rfl
    | [_] =>
      rw [List.length_singleton]
      rfl
    | a :: b :: rest => exact (hshort a b rest rfl).elim

/-- The pairs of a text of even length, one by one and together. -/
theorem pairs_decode (text : Bytes) (heven : text.length % 2 = 0) :
    List.Forall₂ (fun chunk byte => pairValue chunk = some byte) (chunksExact2 text) bytes ↔
      Hex.decode (plusAsZero (text.map byteChar)) = some bytes := by
  fun_induction chunksExact2 text generalizing bytes with
  | case1 a b text ih =>
    have htext : text.length % 2 = 0 := by
      rw [List.length_cons, List.length_cons] at heven
      omega
    rw [List.map_cons, List.map_cons, plusAsZero, Hex.decode_cons_cons, List.forall₂_cons_left_iff]
    simp only [pairValue_iff, ih htext]
    constructor
    · rintro ⟨_, rest, ⟨h, l, hh, hl, rfl⟩, hrest, rfl⟩
      exact ⟨h, l, rest, hh, hl, hrest, rfl⟩
    · rintro ⟨h, l, rest, hh, hl, hrest, rfl⟩
      exact ⟨_, rest, ⟨h, l, hh, hl, rfl⟩, hrest, rfl⟩
  | case2 text hshort =>
    match text with
    | [] =>
      rw [List.forall₂_nil_left_iff]
      constructor
      · rintro rfl
        rfl
      · intro h
        cases h
        rfl
    | [_] => cases heven
    | a :: b :: rest => exact (hshort a b rest rfl).elim

theorem parsePskHex_iff (input : String) :
    parsePskHex input ≠ .error .panicked ∧
      ∀ key, parsePskHex input = .ok key ↔ (trim input).toList.length = 64 ∧
        Hex.decode (plusAsZero (trim input).toList) = some key.val := by
  generalize hbytes : asBytes (trim input) = bytes
  -- The characters are the bytes where either side says that all are ASCII.
  have hsame : (∀ b ∈ bytes, b.toNat < 128) ∨ (∀ c ∈ (trim input).toList, c.toNat < 128) →
      bytes.map byteChar = (trim input).toList := by
    intro h
    rw [← hbytes, asBytes_eq]
    rcases h with h | h
    · apply byteChar_encode
      apply ascii_of_encode
      rw [← asBytes_eq, hbytes]
      exact h
    · exact byteChar_encode h
  by_cases hlen : bytes.length = 64
  · have hparse : parsePskHex input = parsePskPairs (.fill 32 0) 0 (chunksExact2 bytes) := by
      rw [parsePskHex, hbytes]
      exact if_neg (not_not.mpr hlen)
    have hpairs := parsePskPairs_iff (.fill 32 0) 0 (chunksExact2 bytes)
      (by rw [chunksExact2_length, hlen])
    rw [hparse]
    refine ⟨hpairs.1, fun key => (hpairs.2 key).trans ?_⟩
    simp only [pairs_decode bytes (by rw [hlen]), List.take_zero, List.nil_append]
    constructor
    · rintro ⟨_, hdecode, rfl⟩
      have hascii : ∀ b ∈ bytes, b.toNat < 128 := by
        intro b hb
        rw [← byteChar_toNat]
        exact ascii_of_decode hdecode _ (List.mem_map_of_mem hb)
      rw [hsame (.inl hascii)] at hdecode
      refine ⟨?_, hdecode⟩
      rw [← hsame (.inl hascii), List.length_map, hlen]
    · rintro ⟨_, hdecode⟩
      rw [hsame (.inr (ascii_of_decode hdecode))]
      exact ⟨_, hdecode, rfl⟩
  · have hparse : parsePskHex input =
        .error (.error "PSK must be exactly 64 hex characters (32 bytes)") := by
      rw [parsePskHex, hbytes]
      exact if_pos hlen
    rw [hparse]
    constructor
    · intro h
      cases h
    · intro key
      constructor
      · intro h
        cases h
      · rintro ⟨hchars, hdecode⟩
        rw [← hsame (.inr (ascii_of_decode hdecode)), List.length_map] at hchars
        exact absurd hchars hlen

/-- 64 hex digits, and the key they denote. -/
structure Spells (text : List Char) (key : Octets 32) : Prop where
  length : text.length = 64
  digits : ∀ c ∈ text, Hex.IsDigit c
  value : Hex.decode text = some key.val

/-- A string is taken for the key its digits denote, or it is refused. -/
def ParsedExactly (input : String) : Prop :=
  parsePskHex input ≠ .error .panicked ∧
    ∀ key, parsePskHex input = .ok key ↔ Spells (trim input).toList key

/-- Equal up to letter case and surrounding whitespace. -/
def SameDigits (a b : String) : Prop :=
  (trim a).toList.map Char.toLower = (trim b).toList.map Char.toLower

/-- 32 pairs, each of two digits or of a plus sign and a digit, with a sign among them. -/
def Signed (input : String) : Prop :=
  (trim input).toList.length = 64 ∧ '+' ∈ (trim input).toList ∧
    (Hex.decode (plusAsZero (trim input).toList)).isSome

theorem spells_iff : Spells text key ↔ text.length = 64 ∧ Hex.decode text = some key.val := by
  constructor
  · intro h
    exact ⟨h.length, h.value⟩
  · rintro ⟨hlen, hvalue⟩
    exact ⟨hlen, Hex.decode_digits hvalue, hvalue⟩

theorem Spells.unsigned (h : Spells text key) : '+' ∉ text := by
  intro hplus
  have hdigit := h.digits '+' hplus
  revert hdigit
  unfold Hex.IsDigit
  decide

/-- A signed string is taken for a key, though it does not spell one. -/
theorem Signed.accepted (h : Signed input) : ∃ key, parsePskHex input = .ok key := by
  obtain ⟨hlen, _, hdecode⟩ := h
  obtain ⟨bytes, hbytes⟩ := Option.isSome_iff_exists.mp hdecode
  have hkey := Hex.decode_length hbytes
  rw [plusAsZero_length, hlen] at hkey
  exact ⟨⟨bytes, by omega⟩, ((parsePskHex_iff input).2 _).mpr ⟨hlen, hbytes⟩⟩

theorem parsedExactly_iff (input : String) : ParsedExactly input ↔ ¬ Signed input := by
  constructor
  · intro h hsigned
    obtain ⟨key, hkey⟩ := hsigned.accepted
    exact ((h.2 key).mp hkey).unsigned hsigned.2.1
  · intro h
    refine ⟨(parsePskHex_iff input).1, fun key => ((parsePskHex_iff input).2 key).trans ?_⟩
    rw [spells_iff]
    apply and_congr_right
    intro hlen
    by_cases hplus : '+' ∈ (trim input).toList
    · constructor
      · intro hdecode
        exact absurd ⟨hlen, hplus, by rw [hdecode]; rfl⟩ h
      · intro hdecode
        exact absurd hplus (spells_iff.mpr ⟨hlen, hdecode⟩).unsigned
    · rw [plusAsZero_unsigned hplus]

/-- Two strings are both parsed exactly, and only taken for the same key when they are
equal up to letter case and surrounding whitespace, just if neither has a sign in it. -/
theorem psk_exact_iff (a b : String) :
    (ParsedExactly a ∧ ParsedExactly b ∧
      ∀ key, parsePskHex a = .ok key → parsePskHex b = .ok key → SameDigits a b) ↔
    ¬ Signed a ∧ ¬ Signed b := by
  constructor
  · rintro ⟨ha, hb, _⟩
    exact ⟨(parsedExactly_iff a).mp ha, (parsedExactly_iff b).mp hb⟩
  · rintro ⟨hsa, hsb⟩
    have ha := (parsedExactly_iff a).mpr hsa
    have hb := (parsedExactly_iff b).mpr hsb
    refine ⟨ha, hb, ?_⟩
    intro key hka hkb
    exact Hex.decode_injective ((ha.2 key).mp hka).value ((hb.2 key).mp hkb).value

/-- A sign and 63 zeros are taken for the key of 64 zeros. -/
theorem psk_sign_taken : ¬ ParsedExactly (String.ofList ('+' :: List.replicate 63 '0')) ∧
    ∃ key, parsePskHex (String.ofList ('+' :: List.replicate 63 '0')) = .ok key ∧
      parsePskHex (String.ofList (List.replicate 64 '0')) = .ok key ∧
      ¬ SameDigits (String.ofList ('+' :: List.replicate 63 '0'))
        (String.ofList (List.replicate 64 '0')) := by
  have hplus : parsePskHex (String.ofList ('+' :: List.replicate 63 '0')) = .ok (.fill 32 0) := by
    decide +kernel
  have hzeros : parsePskHex (String.ofList (List.replicate 64 '0')) = .ok (.fill 32 0) := by
    decide +kernel
  refine ⟨?_, .fill 32 0, hplus, hzeros, ?_⟩
  · intro h
    exact ((h.2 _).mp hplus).unsigned (by decide +kernel)
  · unfold SameDigits
    decide +kernel

end Sankaku
