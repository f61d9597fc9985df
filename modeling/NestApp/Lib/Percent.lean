import Mathlib.Data.List.Basic

/-!
# `Lib.Percent` — percent-encoded text

`encodeURIComponent` writes a character of a small set as it is and every other one as the bytes of its
UTF-8 form, each as `%` and two digits. `decodeURIComponent` reads the bytes back (`none`: it throws).

* `decode_encode` — every text is read back as it was;
* `mem_encode` — what is written has no character outside the set but `%`, so none that ends a query,
  an attribute or a line.
-/

namespace Percent

/-! ## Writing

A character outside the set is written byte by byte, in upper-case digits. The bytes are those of its
UTF-8 form, which Lean's strings have anyway. -/

/-- The characters written as they are: letters, digits and `- _ . ! ~ * ' ( )`. -/
def unreserved (c : Char) : Bool := c.isAlphanum || c.toNat ∈ [45, 95, 46, 33, 126, 42, 39, 40, 41]

/-- A digit, in upper case. -/
def hexDigit (n : Nat) : Char := Char.ofNat (if n < 10 then 48 + n else 55 + n)

def percent (b : UInt8) : List Char := ['%', hexDigit (b.toNat / 16), hexDigit (b.toNat % 16)]

def encodeChar (c : Char) : List Char :=
  if unreserved c then [c] else (String.utf8EncodeChar c).flatMap percent

/-- `encodeURIComponent` -/
def encode (s : String) : String := String.ofList (s.toList.flatMap encodeChar)

/-! ## Reading

`decodeURIComponent` collects bytes until the text ends and then asks whether they are UTF-8; a percent
sign without two digits behind it is an error. -/

/-- A digit, in upper or lower case. -/
def hexValue (c : Char) : Option Nat :=
  if c.isDigit then some (c.toNat - 48)
  else if 65 ≤ c.toNat ∧ c.toNat ≤ 70 then some (c.toNat - 55)
  else if 97 ≤ c.toNat ∧ c.toNat ≤ 102 then some (c.toNat - 87)
  else none

/-- The byte of two digits. -/
def hexByte (a b : Char) : Option UInt8 :=
  (hexValue a).bind fun high => (hexValue b).map fun low => UInt8.ofNat (16 * high + low)

def decodeBytes : List Char → Option (List UInt8)
  | []        => some []
  | c :: rest =>
      if c = '%' then
        match rest with
        | a :: b :: rest => (hexByte a b).bind fun byte => (decodeBytes rest).map (byte :: ·)
        | _              => none
      else (decodeBytes rest).map (String.utf8EncodeChar c ++ ·)

/-- `decodeURIComponent` -/
def decode (s : String) : Option String := (decodeBytes s.toList).bind fun bytes =>
    String.fromUTF8? bytes.toByteArray

/-! ## Round trip

Character by character: the bytes of one character are read back as these bytes, and bytes of
characters put together are the UTF-8 form of the text. -/

theorem hexValue_hexDigit : ∀ n, n < 16 → hexValue (hexDigit n) = some n := by decide

theorem unreserved_hexDigit : ∀ n, n < 16 → unreserved (hexDigit n) = true := by decide

theorem unreserved_ne {c : Char} (h : unreserved c = true) : c ≠ '%' := by
  rintro rfl
  exact absurd h (by decide)

theorem hexByte_digits (b : UInt8) :
    hexByte (hexDigit (b.toNat / 16)) (hexDigit (b.toNat % 16)) = some b := by
  have hlt := b.toNat_lt
  have hhigh := hexValue_hexDigit (b.toNat / 16) (by omega)
  have hlow := hexValue_hexDigit (b.toNat % 16) (by omega)
  have hsum : 16 * (b.toNat / 16) + b.toNat % 16 = b.toNat := by omega
  rw [hexByte, hhigh, hlow, Option.bind_some, Option.map_some, hsum, UInt8.ofNat_toNat]

theorem decodeBytes_cons {c : Char} (h : c ≠ '%') (rest : List Char) :
    decodeBytes (c :: rest) = (decodeBytes rest).map (String.utf8EncodeChar c ++ ·) := by
  conv_lhs => unfold decodeBytes
  exact if_neg h

/-- The bytes of a text that begins with encoded bytes. -/
theorem decodeBytes_percent (bytes : List UInt8) (rest : List Char) :
    decodeBytes (bytes.flatMap percent ++ rest) = (decodeBytes rest).map (bytes ++ ·) := by
  induction bytes with
  | nil => simp
  | cons b bytes ih =>
      rw [List.flatMap_cons, List.append_assoc]
      show ((hexByte _ _).bind fun byte => (decodeBytes (bytes.flatMap percent ++ rest)).map
        (byte :: ·)) = _
      rw [hexByte_digits, ih]
      cases decodeBytes rest <;> rfl

/-- A character is read back as its bytes. -/
theorem decodeBytes_encodeChar (c : Char) (rest : List Char) :
    decodeBytes (encodeChar c ++ rest) = (decodeBytes rest).map (String.utf8EncodeChar c ++ ·) := by
  unfold encodeChar
  split
  · next h => exact decodeBytes_cons (unreserved_ne h) rest
  · exact decodeBytes_percent _ _

theorem decodeBytes_encode (l : List Char) :
    decodeBytes (l.flatMap encodeChar) = some (l.flatMap String.utf8EncodeChar) := by
  induction l with
  | nil => rfl
  | cons c l ih =>
      rw [List.flatMap_cons, List.flatMap_cons, decodeBytes_encodeChar, ih]
      rfl

/-- **Round trip.** What was encoded is decoded to the text it was, for every text. -/
theorem decode_encode (s : String) : decode (encode s) = some s := by
  have hbytes : (s.toList.flatMap String.utf8EncodeChar).toByteArray = s.toByteArray :=
    String.utf8Encode_toList
  unfold decode encode
  rw [String.toList_ofList, decodeBytes_encode, Option.bind_some, hbytes, String.fromUTF8?,
    dif_pos s.isValidUTF8]
  rfl

/-- **The characters written**: those of the set, and `%`. -/
theorem mem_encode {s : String} {c : Char} (h : c ∈ (encode s).toList) :
    unreserved c = true ∨ c = '%' := by
  unfold encode at h
  rw [String.toList_ofList] at h
  obtain ⟨d, -, hd⟩ := List.mem_flatMap.mp h
  unfold encodeChar at hd
  split at hd
  · next hset =>
    rw [List.mem_singleton.mp hd]
    exact .inl hset
  · obtain ⟨b, -, hb⟩ := List.mem_flatMap.mp hd
    have hlt := b.toNat_lt
    simp only [percent, List.mem_cons, List.not_mem_nil, or_false] at hb
    rcases hb with rfl | rfl | rfl
    · exact .inr rfl
    · exact .inl (unreserved_hexDigit _ (by omega))
    · exact .inl (unreserved_hexDigit _ (by omega))

theorem encodeChar_eq_singleton {c : Char} (h : unreserved c = true) : encodeChar c = [c] := by
  rw [encodeChar, if_pos h]

/-- Three characters for each byte of another character, and there is one at least. -/
theorem one_lt_length_encodeChar {c : Char} (h : unreserved c = false) : 1 < (encodeChar c).length := by
  have hbytes : 0 < (String.utf8EncodeChar c).length := by
    rw [String.length_utf8EncodeChar]
    exact c.utf8Size_pos
  rw [encodeChar, if_neg (by simp [h]), List.length_flatMap]
  simp only [percent, List.length_cons, List.length_nil, List.map_const', List.sum_replicate_nat]
  omega

theorem one_le_length_encodeChar (c : Char) : 1 ≤ (encodeChar c).length := by
  cases h : unreserved c with
  | true => rw [encodeChar_eq_singleton h]; exact Nat.le_refl 1
  | false => exact Nat.le_of_lt (one_lt_length_encodeChar h)

theorem length_le_encode (l : List Char) : l.length ≤ (l.flatMap encodeChar).length := by
  induction l with
  | nil => exact Nat.le_refl 0
  | cons c l ih =>
      rw [List.flatMap_cons, List.length_append, List.length_cons]
      have hone := one_le_length_encodeChar c
      omega

/-- **The texts of the set**, and they alone, are their own encoding. -/
theorem encode_eq_iff {s : String} : encode s = s ↔ ∀ c ∈ s.toList, unreserved c = true := by
  rw [encode, ← String.toList_inj, String.toList_ofList]
  generalize s.toList = l
  induction l with
  | nil => simp
  | cons c l ih =>
      rw [List.flatMap_cons, List.forall_mem_cons]
      constructor
      · intro heq
        have hlength := congrArg List.length heq
        rw [List.length_append, List.length_cons] at hlength
        have hrest := length_le_encode l
        cases hc : unreserved c with
        | false =>
            have hlong := one_lt_length_encodeChar hc
            omega
        | true =>
            rw [encodeChar_eq_singleton hc, List.singleton_append] at heq
            exact ⟨rfl, ih.mp (List.cons.inj heq).2⟩
      · rintro ⟨hc, hl⟩
        rw [encodeChar_eq_singleton hc, ih.mpr hl, List.singleton_append]

end Percent
