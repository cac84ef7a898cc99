import Mirage.Computation.Codec
import Mirage.Model.Prelude

/-!
# Numbers and identifiers in byte arrays

`to_le_bytes` and `from_le_bytes`, the byte arrays of identifiers, UTF-8, and the checked
reads at an offset of `mirage-pack/src/encode.rs`.
-/

set_option autoImplicit false

namespace Mirage.Model

open Mirage.Computation

/-- INTERNAL: `from_le_bytes`. -/
def fromLeBytes (bytes : List UInt8) : Nat := Nat.ofDigits 256 (bytes.map UInt8.toNat)

/-- INTERNAL: the number of a byte array, the last byte least significant. -/
def fromBeBytes (bytes : List UInt8) : Nat := fromLeBytes bytes.reverse

@[simp] theorem length_leBytes (n value : Nat) : (leBytes n value).length = n := by
  unfold leBytes
  rw [List.length_map, List.length_range]

@[simp] theorem length_beBytes (n value : Nat) : (beBytes n value).length = n := by
  unfold beBytes
  rw [List.length_map, List.length_reverse, List.length_range]

variable {value : Nat} {bytes : List UInt8}

theorem fromLeBytes_leBytes {n : Nat} (h : value < 256 ^ n) :
    fromLeBytes (leBytes n value) = value := by
  unfold fromLeBytes leBytes
  rw [List.map_map]
  have hbyte : (UInt8.toNat ∘ fun i => UInt8.ofNat (value / 256 ^ i)) =
      fun i => value / 256 ^ i % 256 := by
    funext i
    exact UInt8.toNat_ofNat
  rw [hbyte]
  exact ofDigits_range_map (by decide) n value h

theorem leBytes_succ (n value : Nat) :
    leBytes (n + 1) value = UInt8.ofNat value :: leBytes n (value / 256) := by
  unfold leBytes
  rw [List.range_succ_eq_map, List.map_cons, List.map_map, Nat.pow_zero, Nat.div_one]
  congr 1
  refine List.map_congr_left fun i _ => ?_
  change UInt8.ofNat (value / 256 ^ (i + 1)) = _
  rw [Nat.pow_succ', Nat.div_div_eq_div_mul]

theorem fromLeBytes_cons (byte : UInt8) (bytes : List UInt8) :
    fromLeBytes (byte :: bytes) = byte.toNat + 256 * fromLeBytes bytes := by
  unfold fromLeBytes
  rw [List.map_cons, Nat.ofDigits_cons]

theorem fromLeBytes_lt (bytes : List UInt8) : fromLeBytes bytes < 256 ^ bytes.length := by
  have hdigits := Nat.ofDigits_lt_base_pow_length (b := 256) (l := bytes.map UInt8.toNat)
    (by decide) (by
      intro d hd
      obtain ⟨byte, -, rfl⟩ := List.mem_map.mp hd
      exact byte.toNat_lt)
  rwa [List.length_map] at hdigits

theorem fromBeBytes_lt (bytes : List UInt8) : fromBeBytes bytes < 256 ^ bytes.length := by
  rw [← bytes.length_reverse]
  exact fromLeBytes_lt bytes.reverse

/-- INTERNAL: bytes that were read as a number are the bytes of that number. -/
theorem leBytes_fromLeBytes (bytes : List UInt8) :
    leBytes bytes.length (fromLeBytes bytes) = bytes := by
  induction bytes with
  | nil => rfl
  | cons byte bytes ih =>
    have hlt : byte.toNat < 256 := byte.toNat_lt
    have hbyte : UInt8.ofNat (byte.toNat + 256 * fromLeBytes bytes) = byte := by
      apply UInt8.toNat_inj.mp
      rw [UInt8.toNat_ofNat']
      omega
    rw [List.length_cons, leBytes_succ, fromLeBytes_cons, hbyte,
      show (byte.toNat + 256 * fromLeBytes bytes) / 256 = fromLeBytes bytes by omega, ih]

theorem beBytes_eq_reverse (n value : Nat) : beBytes n value = (leBytes n value).reverse := by
  unfold beBytes leBytes
  rw [← List.map_reverse]

theorem beBytes_fromBeBytes (bytes : List UInt8) :
    beBytes bytes.length (fromBeBytes bytes) = bytes := by
  rw [← bytes.length_reverse, beBytes_eq_reverse]
  unfold fromBeBytes
  rw [leBytes_fromLeBytes, List.reverse_reverse]

theorem fromBeBytes_beBytes {n : Nat} (h : value < 256 ^ n) :
    fromBeBytes (beBytes n value) = value := by
  unfold fromBeBytes
  rw [beBytes_eq_reverse, List.reverse_reverse]
  exact fromLeBytes_leBytes h

/-- INTERNAL: the bytes of a 16-byte identifier. -/
def idBytes (value : BitVec 128) : List UInt8 := beBytes 16 value.toNat

/-- INTERNAL: the bytes of a 32-byte digest. -/
def hashBytes (value : BitVec 256) : List UInt8 := beBytes 32 value.toNat

def idOfBytes (bytes : List UInt8) : BitVec 128 := BitVec.ofNat 128 (fromBeBytes bytes)

def hashOfBytes (bytes : List UInt8) : BitVec 256 := BitVec.ofNat 256 (fromBeBytes bytes)

@[simp] theorem length_idBytes (value : BitVec 128) : (idBytes value).length = 16 :=
  length_beBytes 16 _

@[simp] theorem length_hashBytes (value : BitVec 256) : (hashBytes value).length = 32 :=
  length_beBytes 32 _

theorem idOfBytes_idBytes (value : BitVec 128) : idOfBytes (idBytes value) = value := by
  unfold idOfBytes idBytes
  rw [fromBeBytes_beBytes (by have := value.isLt; omega), BitVec.ofNat_toNat, BitVec.setWidth_eq]

theorem hashOfBytes_hashBytes (value : BitVec 256) : hashOfBytes (hashBytes value) = value := by
  unfold hashOfBytes hashBytes
  rw [fromBeBytes_beBytes (by have := value.isLt; omega), BitVec.ofNat_toNat, BitVec.setWidth_eq]

theorem idBytes_idOfBytes (h : bytes.length = 16) : idBytes (idOfBytes bytes) = bytes := by
  unfold idBytes idOfBytes
  have hlt := fromBeBytes_lt bytes
  rw [h] at hlt
  rw [BitVec.toNat_ofNat, Nat.mod_eq_of_lt (by omega), ← h]
  exact beBytes_fromBeBytes bytes

theorem hashBytes_hashOfBytes (h : bytes.length = 32) : hashBytes (hashOfBytes bytes) = bytes := by
  unfold hashBytes hashOfBytes
  have hlt := fromBeBytes_lt bytes
  rw [h] at hlt
  rw [BitVec.toNat_ofNat, Nat.mod_eq_of_lt (by omega), ← h]
  exact beBytes_fromBeBytes bytes

/-! ## Text -/

/-- INTERNAL: the UTF-8 bytes of a text. -/
def utf8Bytes (text : List Char) : List UInt8 := text.flatMap String.utf8EncodeChar

/-- INTERNAL: `str::from_utf8`. -/
def fromUtf8 (bytes : List UInt8) : Option (List Char) :=
  (bytes.toByteArray.utf8Decode?).map Array.toList

theorem fromUtf8_utf8Bytes (text : List Char) : fromUtf8 (utf8Bytes text) = some text := by
  unfold fromUtf8 utf8Bytes
  have hencode : (text.flatMap String.utf8EncodeChar).toByteArray = text.utf8Encode := rfl
  rw [hencode, List.utf8Decode?_utf8Encode]
  rfl

/-- INTERNAL: bytes that are a text are the bytes of that text alone. -/
theorem utf8Bytes_of_fromUtf8 {text : List Char} (h : fromUtf8 bytes = some text) :
    utf8Bytes text = bytes := by
  unfold fromUtf8 at h
  obtain ⟨decoded, hdecoded, rfl⟩ := Option.map_eq_some_iff.mp h
  have hsome : bytes.toByteArray.utf8Decode?.isSome = true := by
    rw [hdecoded]
    rfl
  obtain ⟨chars, hchars⟩ := ByteArray.isSome_utf8Decode?_iff.mp hsome
  rw [hchars, List.utf8Decode?_utf8Encode] at hdecoded
  obtain rfl := Option.some.inj hdecoded
  exact (List.toByteArray_inj.mp hchars).symm

theorem utf8Bytes_injective : Function.Injective utf8Bytes := by
  intro a b h
  have hread := congrArg fromUtf8 h
  rw [fromUtf8_utf8Bytes, fromUtf8_utf8Bytes] at hread
  exact Option.some.inj hread

/-! ## Reads at an offset -/

/-- INTERNAL: a part of a byte array, or the error.  The offsets are constants of the
formats, so adding the length to one does not overflow. -/
def fieldAt (e : MirageError) (length : Nat) (bytes : List UInt8) (offset : Nat) :
    Except MirageError (List UInt8) :=
  if offset + length ≤ bytes.length then .ok (slice bytes offset length) else .error e

def numberAt (e : MirageError) (length : Nat) (bytes : List UInt8) (offset : Nat) :
    Except MirageError Nat := do
  let field ← fieldAt e length bytes offset
  pure (fromLeBytes field)

/-- INTERNAL: SRCLINE: mirage-pack/src/encode.rs:15-24 -/
def takeField : Nat → List UInt8 → Nat → Except MirageError (List UInt8) :=
  fieldAt (.manifestInvalid "pack field is truncated")

/-- INTERNAL: SRCLINE: mirage-pack/src/encode.rs:3-13 -/
def readU16 : List UInt8 → Nat → Except MirageError Nat :=
  numberAt (.manifestInvalid "pack field is truncated") 2

def readU32 : List UInt8 → Nat → Except MirageError Nat :=
  numberAt (.manifestInvalid "pack field is truncated") 4

def readU64 : List UInt8 → Nat → Except MirageError Nat :=
  numberAt (.manifestInvalid "pack field is truncated") 8

/-- INTERNAL: the field of number `k` of a record is read back. -/
theorem fieldAt_ok {e : MirageError} {fields : List (List UInt8)} {field : List UInt8}
    {start length : Nat} (k : Nat) (hfield : fields[k]? = some field)
    (hstart : ((fields.take k).map List.length).sum = start)
    (hlength : field.length = length) : fieldAt e length fields.flatten start = .ok field := by
  unfold fieldAt
  rw [if_pos (field_end_le k hfield hstart hlength), slice_field k hfield hstart hlength]

theorem numberAt_ok {e : MirageError} {fields : List (List UInt8)} {start length : Nat} (k : Nat)
    (hfield : fields[k]? = some (leBytes length value))
    (hstart : ((fields.take k).map List.length).sum = start) (hvalue : value < 256 ^ length) :
    numberAt e length fields.flatten start = .ok value := by
  unfold numberAt
  rw [fieldAt_ok k hfield hstart (length_leBytes length value)]
  exact congrArg Except.ok (fromLeBytes_leBytes hvalue)

end Mirage.Model
