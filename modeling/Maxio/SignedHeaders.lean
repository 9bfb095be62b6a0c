import Maxio.Signature
import Maxio.RoundTrip

/-!
What a signature in the header binds: the headers it names, the payload hash and the date.
-/

namespace Maxio

/-! ### Cutting the signed text -/

/-- A line ends at its first line break. -/
theorem line_cut {s t rest rest' : Text} (line : '\n' ∉ s) (line' : '\n' ∉ t)
    (same : s ++ '\n' :: rest = t ++ '\n' :: rest') : s = t ∧ rest = rest' := by
  have cut : Text.split_once '\n' (s ++ '\n' :: rest) = some (s,rest) := Text.split_once_some.mpr ⟨rfl,line⟩
  rw [same,Text.split_once_some.mpr ⟨rfl,line'⟩] at cut
  simpa [eq_comm] using cut

theorem to_str_line {value : Bytes} {t : Text} (read : to_str value = some t) : '\n' ∉ t := by
  unfold to_str at read
  split at read
  next visible =>
    cases read
    intro member
    obtain ⟨b,listed,same⟩ := List.mem_map.mp member
    have seen := List.all_eq_true.mp visible b listed
    have all : ∀ b : Fin 256, visible_ascii (UInt8.ofNat b) = true → Char.ofNat b.val ≠ '\n' := by decide +kernel
    have here := all ⟨b.toNat,b.toNat_lt⟩
    simp only [UInt8.ofNat_toNat] at here
    exact here seen same
  next => cases read

theorem mem_trim {c : Char} {t : Text} (member : c ∈ Text.trim t) : c ∈ t := by
  unfold Text.trim at member
  rw [List.mem_reverse] at member
  have inner := (List.dropWhile_sublist _).subset member
  rw [List.mem_reverse] at inner
  exact (List.dropWhile_sublist _).subset inner

theorem mem_intercalate {sep c : Char} {pieces : List Text} (member : c ∈ [sep].intercalate pieces) :
    c = sep ∨ ∃ piece ∈ pieces, c ∈ piece := by
  induction pieces with
  | nil => simp [List.intercalate] at member
  | cons piece rest ih =>
    cases rest with
    | nil => exact .inr ⟨piece,by simp,by simpa [List.intercalate,List.intersperse] using member⟩
    | cons next more =>
      have joined : [sep].intercalate (piece :: next :: more) = piece ++ sep :: [sep].intercalate (next :: more) := by
        simp [List.intercalate,List.intersperse]
      rw [joined,List.mem_append,List.mem_cons] at member
      rcases member with first | same | later
      · exact .inr ⟨piece,by simp,first⟩
      · exact .inl same
      · rcases ih later with same | ⟨other,listed,inside⟩
        · exact .inl same
        · exact .inr ⟨other,by simp [listed],inside⟩

theorem signed_value_line (headers : HeaderMap) (name : Text) : '\n' ∉ signed_value headers name := by
  intro member
  rcases mem_intercalate (mem_trim member) with same | ⟨value,listed,inside⟩
  · exact absurd same (by decide)
  · obtain ⟨bytes,_,read⟩ := List.mem_filterMap.mp listed
    exact to_str_line read inside

theorem request_timestamp_line (headers : HeaderMap) : '\n' ∉ request_timestamp headers := by
  unfold request_timestamp
  cases value : headers.get "x-amz-date" with
  | none => simp
  | some bytes =>
    rw [Option.bind_some]
    cases read : to_str bytes with
    | none => simp
    | some t => exact to_str_line read

theorem canonical_headers_cons (headers : HeaderMap) (name : Text) (more : List Text) (rest : Text) :
    canonical_headers headers (name :: more) ++ rest =
      name ++ ':' :: (signed_value headers name ++ '\n' :: (canonical_headers headers more ++ rest)) := by
  simp [canonical_headers]

/-- The lines of the signed headers say the signed values one by one. -/
theorem canonical_headers_inj {headers headers' : HeaderMap} {names : List Text} {rest rest' : Text}
    (same : canonical_headers headers names ++ rest = canonical_headers headers' names ++ rest') :
    (∀ name ∈ names, signed_value headers name = signed_value headers' name) ∧ rest = rest' := by
  induction names with
  | nil => exact ⟨by simp,same⟩
  | cons name more ih =>
    rw [canonical_headers_cons,canonical_headers_cons,List.append_cancel_left_eq,List.cons.injEq] at same
    obtain ⟨value,later⟩ := line_cut (signed_value_line headers name) (signed_value_line headers' name) same.2
    obtain ⟨values,after⟩ := ih later
    refine ⟨fun other member => ?_,after⟩
    rcases List.mem_cons.mp member with rfl | listed
    · exact value
    · exact values other listed

/-! ### What is hashed -/

theorem hexChars_inj {a b : Bytes} (same : hexChars a = hexChars b) : a = b :=
  hex_encode_injective (congrArg String.ofList same)

theorem build_canonical_request_inj {method uri query : Text} {headers headers' : HeaderMap} {parsed : ParsedAuth}
    (same : build_canonical_request method uri query headers parsed =
      build_canonical_request method uri query headers' parsed) :
    (∀ name ∈ parsed.signed_headers, signed_value headers name = signed_value headers' name) ∧
      payload_hash headers = payload_hash headers' := by
  simp only [build_canonical_request,List.intercalate,List.intersperse,List.flatten_cons,List.flatten_nil,
    List.append_cancel_left_eq,List.append_nil] at same
  obtain ⟨values,after⟩ := canonical_headers_inj same
  exact ⟨values,by simpa using after⟩

theorem build_string_to_sign_inj {P : Primitives} (free : Function.Injective P.sha256) {request request' t t' : Text}
    {parsed : ParsedAuth} (line : '\n' ∉ t) (line' : '\n' ∉ t')
    (same : build_string_to_sign P request t parsed = build_string_to_sign P request' t' parsed) :
    request = request' ∧ t = t' := by
  simp only [build_string_to_sign,List.intercalate,List.intersperse,List.flatten_cons,List.flatten_nil,
    List.append_cancel_left_eq,List.append_nil,List.cons_append,List.nil_append,List.cons.injEq,true_and] at same
  obtain ⟨time,after⟩ := line_cut line line' same
  have hashes : hexChars (P.sha256 request.bytes) = hexChars (P.sha256 request'.bytes) := by simpa using after
  exact ⟨bytes_inj.mp (free (hexChars_inj hashes)),time⟩

/-! ### Equal in constant time -/

theorem or_foldl_zero (xs : Bytes) (start : UInt8) :
    xs.foldl (fun diff x => diff ||| x) start = 0 ↔ start = 0 ∧ ∀ x ∈ xs, x = 0 := by
  induction xs generalizing start with
  | nil => simp
  | cons x rest ih =>
    rw [List.foldl_cons,ih,UInt8.or_eq_zero_iff,List.forall_mem_cons,and_assoc]

theorem constant_time_eq_iff (a b : Bytes) : constant_time_eq a b = true ↔ a = b := by
  constructor
  · intro equal
    rw [constant_time_eq,Bool.and_eq_true,decide_eq_true_eq,decide_eq_true_eq,or_foldl_zero] at equal
    obtain ⟨long,_,zero⟩ := equal
    induction a generalizing b with
    | nil => exact (List.length_eq_zero_iff.mp long.symm).symm
    | cons x rest ih =>
      cases b with
      | nil => cases long
      | cons y rest' =>
        rw [List.zipWith_cons_cons,List.forall_mem_cons] at zero
        rw [UInt8.xor_eq_zero_iff.mp zero.1,ih rest' (Nat.succ.inj long) zero.2]
  · rintro rfl
    exact constant_time_eq_refl a

/-! ### Two requests under one signature -/

theorem verify_signature_iff (P : Primitives) (method uri query : Text) (headers : HeaderMap) (parsed : ParsedAuth)
    (secret_key : Text) : verify_signature P method uri query headers parsed secret_key = true ↔
      computed_signature P method uri query headers parsed secret_key = parsed.signature := by
  rw [verify_signature,constant_time_eq_iff,bytes_inj]

/-- Without collisions, two requests that one signature is good for agree on every header it names, and on the payload
    hash and the date. -/
theorem signature_binds_signed_headers {P : Primitives} (free : Function.Injective P.sha256)
    (mac_free : ∀ key, Function.Injective (P.hmac_sha256 key)) {method uri query secret_key : Text}
    {headers headers' : HeaderMap} {parsed : ParsedAuth}
    (accepted : verify_signature P method uri query headers parsed secret_key = true)
    (accepted' : verify_signature P method uri query headers' parsed secret_key = true) :
    (∀ name ∈ parsed.signed_headers, signed_value headers name = signed_value headers' name) ∧
      payload_hash headers = payload_hash headers' ∧ request_timestamp headers = request_timestamp headers' := by
  rw [verify_signature_iff] at accepted accepted'
  have signed := mac_free _ (hexChars_inj (accepted.trans accepted'.symm))
  obtain ⟨request,time⟩ := build_string_to_sign_inj free (request_timestamp_line headers)
    (request_timestamp_line headers') (bytes_inj.mp signed)
  obtain ⟨values,payload⟩ := build_canonical_request_inj request
  exact ⟨values,payload,time⟩

namespace Sample

/-- Digests without collisions. -/
def signing : Primitives := { primitives with sha256 := fun data => data, hmac_sha256 := fun key data => key ++ data }

/-- A copy into `logs`, of which only the host is signed. -/
def copy_headers (source : String) : HeaderMap :=
  [("host".toList,utf8 "maxio.test"),("x-amz-date".toList,utf8 "20260101T000000Z"),
   ("x-amz-copy-source".toList,utf8 source)]

def unsigned_auth : ParsedAuth :=
  ⟨"maxioadmin".toList,"20260101".toList,"us-east-1".toList,["host".toList],[]⟩

def copy_signature : Text :=
  computed_signature signing "PUT".toList "/logs/a".toList [] (copy_headers "public/a") unsigned_auth "secret".toList

def copy_auth : ParsedAuth := { unsigned_auth with signature := copy_signature }

def copy_authorization : Text :=
  "AWS4-HMAC-SHA256 Credential=maxioadmin/20260101/us-east-1/s3/aws4_request, SignedHeaders=host, Signature=".toList ++
    copy_signature

theorem copy_accepted (source : String) :
    verify_signature signing "PUT".toList "/logs/a".toList [] (copy_headers source) copy_auth "secret".toList = true := by
  rw [verify_signature_iff]
  rfl

theorem signing_free : Function.Injective signing.sha256 ∧ ∀ key, Function.Injective (signing.hmac_sha256 key) :=
  ⟨fun _ _ same => same,fun _ _ _ same => List.append_cancel_left same⟩

end Sample

/-- One signature is good for copies of two sources: neither is named in it. -/
theorem copy_source_unsigned :
    (parse_authorization_header Sample.copy_authorization).toOption = some Sample.copy_auth ∧
    verify_signature Sample.signing "PUT".toList "/logs/a".toList [] (Sample.copy_headers "public/a") Sample.copy_auth
      "secret".toList = true ∧
    verify_signature Sample.signing "PUT".toList "/logs/a".toList [] (Sample.copy_headers "private/b") Sample.copy_auth
      "secret".toList = true ∧
    (Sample.copy_headers "public/a").get "x-amz-copy-source" ≠ (Sample.copy_headers "private/b").get "x-amz-copy-source" := by
  refine ⟨?_,Sample.copy_accepted _,Sample.copy_accepted _,?_⟩
  · decide +kernel
  · decide +kernel

theorem host_bound :
    (∀ name ∈ ["host".toList], signed_value (Sample.copy_headers "public/a") name =
      signed_value (Sample.copy_headers "private/b") name) ∧
    payload_hash (Sample.copy_headers "public/a") = payload_hash (Sample.copy_headers "private/b") ∧
    request_timestamp (Sample.copy_headers "public/a") = request_timestamp (Sample.copy_headers "private/b") :=
  signature_binds_signed_headers Sample.signing_free.1 Sample.signing_free.2 (Sample.copy_accepted "public/a")
    (Sample.copy_accepted "private/b")

end Maxio
