import Criteria.Text.Hex

namespace Criteria.Text

def isUnreserved (b : UInt8) : Bool :=
  (65 ≤ b && b ≤ 90) || (97 ≤ b && b ≤ 122) || (48 ≤ b && b ≤ 57)
    || b == 45 || b == 46 || b == 95 || b == 126

def percentByte (b : UInt8) : List Char :=
  if isUnreserved b then [Char.ofNat b.toNat]
  else ['%', upperHex (b.toNat / 16), upperHex (b.toNat % 16)]

def utf8 (cs : List Char) : List UInt8 := cs.flatMap String.utf8EncodeChar

def percentChars (cs : List Char) : List Char := (utf8 cs).flatMap percentByte

def percentEncode (s : String) : String := .ofList (percentChars s.toList)

def percentBytes : List Char → List UInt8
  | '%' :: a :: b :: r =>
    match hexValue? a, hexValue? b with
    | some m, some n => UInt8.ofNat (16 * m + n) :: percentBytes r
    | _, _ => String.utf8EncodeChar '%' ++ percentBytes (a :: b :: r)
  | c :: r => String.utf8EncodeChar c ++ percentBytes r
  | [] => []

-- Fails only where the escapes do not spell UTF-8.
def percentDecode? (s : String) : Option String :=
  String.fromUTF8? (percentBytes s.toList).toByteArray

theorem utf8_unreserved : ∀ n < 256, isUnreserved (UInt8.ofNat n) = true →
    String.utf8EncodeChar (Char.ofNat n) = [UInt8.ofNat n] ∧ Char.ofNat n ≠ '%' := by decide +kernel

theorem percentBytes_cons {c : Char} (h : c ≠ '%') (r : List Char) :
    percentBytes (c :: r) = String.utf8EncodeChar c ++ percentBytes r := by
  rw [percentBytes]
  rintro _ _ _ rfl
  exact absurd rfl h

theorem percentBytes_percentByte (b : UInt8) (r : List Char) :
    percentBytes (percentByte b ++ r) = b :: percentBytes r := by
  have hb : b.toNat < 256 := UInt8.toNat_lt_size b
  unfold percentByte
  split
  · rename_i h
    obtain ⟨bytes, other⟩ := utf8_unreserved b.toNat hb (by rwa [UInt8.ofNat_toNat])
    rw [List.singleton_append, percentBytes_cons other, bytes, UInt8.ofNat_toNat]
    rfl
  · have high := hexValue?_upperHex (b.toNat / 16) (by omega)
    have low := hexValue?_upperHex (b.toNat % 16) (by omega)
    simp only [List.cons_append, List.nil_append, percentBytes, high, low]
    rw [show 16 * (b.toNat / 16) + b.toNat % 16 = b.toNat by omega, UInt8.ofNat_toNat]

theorem percentBytes_flatMap (bs : List UInt8) : percentBytes (bs.flatMap percentByte) = bs := by
  induction bs with
  | nil => rfl
  | cons b bs ih => rw [List.flatMap_cons, percentBytes_percentByte, ih]

theorem percentBytes_percentChars (cs : List Char) : percentBytes (percentChars cs) = utf8 cs :=
  percentBytes_flatMap _

theorem percentDecode?_percentEncode (s : String) : percentDecode? (percentEncode s) = some s := by
  have bytes : (utf8 s.toList).toByteArray = s.toByteArray := by
    have same := String.toByteArray_ofList (l := s.toList)
    rw [String.ofList_toList] at same
    exact same.symm
  unfold percentDecode? percentEncode
  rw [String.toList_ofList, percentBytes_percentChars, bytes]
  unfold String.fromUTF8?
  rw [dif_pos s.isValidUTF8]
  rfl

end Criteria.Text
