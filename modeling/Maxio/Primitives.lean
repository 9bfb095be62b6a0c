import Maxio.Types

/-!
Code the storage crate takes from other crates: hashes, AES-GCM, Reed-Solomon coding, base64, clocks and the
rendering of JSON. The model is parametric in it; what a result needs of it is a hypothesis of that result.
-/

namespace Maxio

structure Primitives where
  md5 : Bytes → Bytes
  sha256 : Bytes → Bytes
  hmac_sha256 : Bytes → Bytes → Bytes
  /-- The digest of a `ChecksumHasher` after it was fed some bytes. -/
  checksum : ChecksumAlgorithm → Bytes → Bytes
  b64_encode : Bytes → String
  b64_decode : String → Option Bytes
  /-- AES-256-GCM: key, nonce, additional data, message. The ciphertext carries the tag. -/
  encrypt : Bytes → Bytes → Bytes → Bytes → Option Bytes
  decrypt : Bytes → Bytes → Bytes → Bytes → Option Bytes
  /-- `ReedSolomon::new`. -/
  rs_new : Nat → Nat → Except String Unit
  /-- The parity shards that `encode` computes for the data shards. -/
  rs_encode : Nat → Nat → List Bytes → Except String (List Bytes)
  rs_reconstruct : Nat → Nat → List (Option Bytes) → Except String (List (Option Bytes))
  /-- `serde_json::to_string_pretty`. -/
  json : Record → Bytes
  /-- `serde_json::to_vec` of the value with sorted keys, for the sidecar MAC. -/
  canonical_json : ObjectMeta → Bytes
  /-- Instants are milliseconds since the epoch. -/
  parse_from_rfc3339 : String → Option Int
  format_time : Int → String
  /-- How many bytes more than one a read of a file at each position hands over at most. -/
  file_grant : Nat → Nat

/-- The documented behaviour every round trip rests on: base64 decodes what it encoded, AES-GCM decrypts what it
    encrypted and a ciphertext is 16 bytes longer than its plaintext, and HMAC-SHA256 gives 32 bytes. -/
structure Primitives.Sound (P : Primitives) : Prop where
  base64 : ∀ data, P.b64_decode (P.b64_encode data) = some data
  aead : ∀ key nonce aad message sealed, P.encrypt key nonce aad message = some sealed →
    P.decrypt key nonce aad sealed = some message
  tag : ∀ key nonce aad message sealed, P.encrypt key nonce aad message = some sealed →
    sealed.length = message.length + 16
  opened : ∀ key nonce aad sealed message, P.decrypt key nonce aad sealed = some message →
    sealed.length = message.length + 16
  mac : ∀ key data, (P.hmac_sha256 key data).length = 32

/-! ### Hexadecimal -/

def hexDigit (n : Nat) : Char := if n < 10 then Char.ofNat (48 + n) else Char.ofNat (87 + n)

def hexValue (c : Char) : Option Nat :=
  if '0' ≤ c ∧ c ≤ '9' then some (c.toNat - 48)
  else if 'a' ≤ c ∧ c ≤ 'f' then some (c.toNat - 87)
  else if 'A' ≤ c ∧ c ≤ 'F' then some (c.toNat - 55)
  else none

def hexChars : Bytes → List Char
  | [] => []
  | b :: rest => hexDigit (b.toNat / 16) :: hexDigit (b.toNat % 16) :: hexChars rest

def hexBytes : List Char → Option Bytes
  | [] => some []
  | [_] => none
  | high :: low :: rest => do
    let h ← hexValue high
    let l ← hexValue low
    let tail ← hexBytes rest
    some (UInt8.ofNat (h * 16 + l) :: tail)

/-- `hex::encode`. -/
def hex_encode (data : Bytes) : String := String.ofList (hexChars data)

/-- `hex::decode`. -/
def hex_decode (text : String) : Option Bytes := hexBytes text.toList

private theorem hexValue_hexDigit : ∀ n < 16, hexValue (hexDigit n) = some n := by decide

private theorem hexBytes_hexChars (data : Bytes) : hexBytes (hexChars data) = some data := by
  induction data with
  | nil => rfl
  | cons b rest ih =>
    have bound := b.toNat_lt
    simp only [hexChars,hexBytes,hexValue_hexDigit _ (show b.toNat / 16 < 16 by omega),
      hexValue_hexDigit _ (Nat.mod_lt b.toNat (by decide : 0 < 16)),ih]
    simp only [Option.bind_eq_bind,Option.bind_some,Nat.div_add_mod',UInt8.ofNat_toNat]

theorem hex_decode_encode (data : Bytes) : hex_decode (hex_encode data) = some data := by
  simp [hex_decode,hex_encode,hexBytes_hexChars]

theorem hex_encode_injective : Function.Injective hex_encode := by
  intro left right same
  have decoded := congrArg hex_decode same
  rw [hex_decode_encode,hex_decode_encode] at decoded
  exact Option.some.inj decoded

/-- `to_le_bytes` of an integer of the given width. -/
def le_bytes : Nat → Nat → Bytes
  | 0,_ => []
  | width + 1,n => UInt8.ofNat (n % 256) :: le_bytes width (n / 256)

/-- `from_le_bytes`. -/
def from_le_bytes : Bytes → Nat
  | [] => 0
  | b :: rest => b.toNat + 256 * from_le_bytes rest

@[simp] theorem length_le_bytes (width n : Nat) : (le_bytes width n).length = width := by
  induction width generalizing n with
  | zero => rfl
  | succ width ih => simp [le_bytes,ih]

theorem from_le_bytes_le_bytes (width n : Nat) : from_le_bytes (le_bytes width n) = n % 256 ^ width := by
  induction width generalizing n with
  | zero => simp [le_bytes,from_le_bytes,Nat.mod_one]
  | succ width ih =>
    have low : (UInt8.ofNat (n % 256)).toNat = n % 256 := by
      rw [UInt8.toNat_ofNat']
      exact Nat.mod_eq_of_lt (Nat.mod_lt _ (by decide))
    rw [le_bytes,from_le_bytes,ih,low,Nat.pow_succ',Nat.mod_mul]

/-- The UTF-8 bytes of a text (`as_bytes`). -/
def utf8 (s : String) : Bytes := s.toList.flatMap String.utf8EncodeChar

theorem utf8_append (s t : String) : utf8 (s ++ t) = utf8 s ++ utf8 t := by
  rw [utf8,utf8,utf8,String.toList_append,List.flatMap_append]

/-- With `rw`, this spells a literal out, so that its bytes are computed character by character. -/
theorem utf8_ofList (cs : List Char) : utf8 (String.ofList cs) = cs.flatMap String.utf8EncodeChar := by
  rw [utf8,String.toList_ofList]

end Maxio
