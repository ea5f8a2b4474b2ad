import Relata.Text.Basic

/-!
# Texts as bytes

Files and terminal input hold bytes. `decode` accepts exactly the well-formed UTF-8
sequences, and undoes `encode`.
-/

namespace Relata

abbrev Bytes := List UInt8

namespace Text

def encode (t : Text) : Bytes :=
  t.flatMap String.utf8EncodeChar

/-- The text whose UTF-8 form the bytes are, if there is one. -/
def decode (bytes : Bytes) : Option Text :=
  bytes.toByteArray.utf8Decode?.map Array.toList

theorem decode_encode (t : Text) : decode (encode t) = some t := by
  have h : (encode t).toByteArray = t.utf8Encode := rfl
  simp [decode, h]

/-- No other bytes are decoded than those that a text is encoded to. -/
theorem decode_eq_some_iff {bytes : Bytes} {t : Text} :
    decode bytes = some t ↔ bytes = encode t := by
  constructor
  · intro h
    obtain ⟨chars, hchars, rfl⟩ := Option.map_eq_some_iff.1 h
    obtain ⟨t, ht⟩ := ByteArray.isSome_utf8Decode?_iff.1 (Option.isSome_of_eq_some hchars)
    rw [ht, List.utf8Decode?_utf8Encode] at hchars
    cases hchars
    exact List.toByteArray_inj.1 ht
  · rintro rfl
    exact decode_encode t

end Text

end Relata
