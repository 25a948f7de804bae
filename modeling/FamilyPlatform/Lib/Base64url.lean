import Mathlib.Data.List.Basic

/-! Texts as base64url: the bytes of their UTF-8, three to four characters and without padding. What is written is read
back. -/
namespace FamilyPlatform.Base64url

def alphabet : List Char := "ABCDEFGHIJKLMNOPQRSTUVWXYZabcdefghijklmnopqrstuvwxyz0123456789-_".toList

def digit (n : Nat) : Char := alphabet.getD n 'A'

def valueOf (c : Char) : Nat := alphabet.idxOf c

theorem valueOfDigit : ∀ n < 64, valueOf (digit n) = n := by decide +kernel

def encodeBytes : List UInt8 → List Char
  | a :: b :: c :: rest => digit (a.toNat / 4) :: digit (a.toNat % 4 * 16 + b.toNat / 16) ::
      digit (b.toNat % 16 * 4 + c.toNat / 64) :: digit (c.toNat % 64) :: encodeBytes rest
  | [a, b] => [digit (a.toNat / 4),digit (a.toNat % 4 * 16 + b.toNat / 16),digit (b.toNat % 16 * 4)]
  | [a] => [digit (a.toNat / 4),digit (a.toNat % 4 * 16)]
  | [] => []

def decodeBytes : List Char → List UInt8
  | w :: x :: y :: z :: rest => .ofNat (valueOf w * 4 + valueOf x / 16) :: .ofNat (valueOf x % 16 * 16 + valueOf y / 4) ::
      .ofNat (valueOf y % 4 * 64 + valueOf z) :: decodeBytes rest
  | [w, x, y] => [.ofNat (valueOf w * 4 + valueOf x / 16),.ofNat (valueOf x % 16 * 16 + valueOf y / 4)]
  | [w, x] => [.ofNat (valueOf w * 4 + valueOf x / 16)]
  | _ => []

theorem byteIs {a : UInt8} {n : Nat} (same : n = a.toNat) : UInt8.ofNat n = a := by rw [same,UInt8.ofNat_toNat]

theorem decodeEncode (bytes : List UInt8) : decodeBytes (encodeBytes bytes) = bytes := by
  have small : ∀ a : UInt8, a.toNat < 256 := UInt8.toNat_lt
  fun_induction encodeBytes bytes with
  | case1 a b c rest ih =>
    have := small a
    have := small b
    have := small c
    simp only [decodeBytes,ih]
    rw [valueOfDigit _ (by omega),valueOfDigit _ (by omega),valueOfDigit _ (by omega),valueOfDigit _ (by omega),
      byteIs (show _ = a.toNat by omega),byteIs (show _ = b.toNat by omega),byteIs (show _ = c.toNat by omega)]
  | case2 a b =>
    have := small a
    have := small b
    simp only [decodeBytes]
    rw [valueOfDigit _ (by omega),valueOfDigit _ (by omega),valueOfDigit _ (by omega),
      byteIs (show _ = a.toNat by omega),byteIs (show _ = b.toNat by omega)]
  | case3 a =>
    have := small a
    simp only [decodeBytes]
    rw [valueOfDigit _ (by omega),valueOfDigit _ (by omega),byteIs (show _ = a.toNat by omega)]
  | case4 => rfl

def encode (text : String) : String := String.ofList (encodeBytes text.toUTF8.data.toList)

def decode (text : String) : Option String := String.fromUTF8? ⟨(decodeBytes text.toList).toArray⟩

theorem decodeText (text : String) : decode (encode text) = some text := by
  have bytes : (⟨(decodeBytes (encode text).toList).toArray⟩ : ByteArray) = text.toUTF8 := by
    rw [encode,String.toList_ofList,decodeEncode]
  rw [decode,bytes]
  exact dif_pos text.isValidUTF8

end FamilyPlatform.Base64url
