import Maxio.Addresses
import Maxio.Bodies

/-!
Sessions of the console: tokens that are bound to one credential, and what the server makes of the tokens it is shown.
-/

namespace Maxio

/-! ### The code -/

def TOKEN_MAX_AGE_SECS : Int := 604800

/-- Short fingerprint tying a token to a specific access/secret pair. -/
def session_fingerprint (P : Primitives) (access_key secret_key : Text) : Text :=
  hexChars ((P.sha256 (access_key.bytes ++ Text.bytes [':'] ++ secret_key.bytes)).take 4)

/-- `format!("{:x}", ..)` of an `i64`: two's complement. -/
def i64_hex (n : Int) : Text := Nat.toDigits 16 (n % 2 ^ 64).toNat

/-- What is signed: `format!("{access_key}:{issued_hex}:{fp}")`. -/
def session_message (access_key issued_hex fp : Text) : Text := access_key ++ ':' :: (issued_hex ++ ':' :: fp)

def session_signature (P : Primitives) (secret_key message : Text) : Text :=
  hexChars (P.hmac_sha256 secret_key.bytes message.bytes)

def generate_session_token (P : Primitives) (access_key secret_key : Text) (issued_at : Int) : Text :=
  let issued_hex := i64_hex issued_at
  let fp := session_fingerprint P access_key secret_key
  let sig := session_signature P secret_key (session_message access_key issued_hex fp)
  issued_hex ++ '.' :: (sig ++ '.' :: fp)

/-- `i64::from_str_radix(.., 16)`. -/
def i64_from_str_radix_16 (s : Text) : Option Int :=
  let value (unsigned : Text) : Option Nat :=
    let (found,rest) := digits 16 unsigned
    if found.isEmpty ∨ ¬ rest.isEmpty then none else some (found.foldl (fun n d => n * 16 + d) 0)
  match s with
  | '-' :: rest => (value rest).bind fun n => if n ≤ 2 ^ 63 then some (-n) else none
  | '+' :: rest => (value rest).bind fun n => if n < 2 ^ 63 then some n else none
  | s => (value s).bind fun n => if n < 2 ^ 63 then some n else none

/-- `Utc::now().timestamp()`: seconds, within the years `chrono` knows. -/
structure Timestamp where
  seconds : Int
  after_min : -8334601228800 ≤ seconds
  before_max : seconds ≤ 8210266876799

/-- The difference of the times wraps around. -/
def verify_session_token (P : Primitives) (now : Timestamp) (token access_key secret_key : Text) : Bool :=
  match splitChars '.' token with
  | [issued_hex,signature,fp] =>
    let current_fp := session_fingerprint P access_key secret_key
    if !constant_time_eq (Text.bytes fp) current_fp.bytes then false
    else match i64_from_str_radix_16 issued_hex with
      | none => false
      | some issued_at =>
        if TOKEN_MAX_AGE_SECS < (now.seconds - issued_at).bmod (2 ^ 64) ∨ now.seconds + 60 < issued_at then false
        else
          let expected := session_signature P secret_key (session_message access_key issued_hex fp)
          constant_time_eq (Text.bytes signature) expected.bytes
  | _ => false

/-- An entry of the store, as far as sessions depend on it. -/
structure SessionCredential where
  access_key : Text
  secret_key : Text
  enabled : Bool
  deriving DecidableEq

/-- Entries under their access keys, in the order in which the map hands them out. -/
structure CredentialStore where
  by_access_key : List SessionCredential
  one_each : (by_access_key.map SessionCredential.access_key).Nodup

namespace CredentialStore
variable (store : CredentialStore)

def lookup (access_key : Text) : Option SessionCredential :=
  (store.by_access_key.find? fun c => c.access_key = access_key).filter SessionCredential.enabled

def list_access_keys : List Text := (store.by_access_key.filter SessionCredential.enabled).map SessionCredential.access_key

/-- The credential that minted a token with this fingerprint. -/
def lookup_by_session_fingerprint (P : Primitives) (fp : Text) : Option SessionCredential :=
  (store.list_access_keys.filterMap store.lookup).find? fun cred =>
    session_fingerprint P cred.access_key cred.secret_key = fp

/-- Verify a console cookie and return the access key it is bound to. -/
def resolve_legacy_console_access_key (P : Primitives) (now : Timestamp) (token : Text) : Option Text :=
  (splitChars '.' token)[2]?.bind fun fp => (store.lookup_by_session_fingerprint P fp).bind fun cred =>
    if verify_session_token P now token cred.access_key cred.secret_key then some cred.access_key else none

end CredentialStore

/-! ### What a session is -/

section
variable (P : Primitives)

def SessionCredential.fingerprint (c : SessionCredential) : Text := session_fingerprint P c.access_key c.secret_key

/-- The token was minted for the credential at this time. -/
def SessionCredential.Minted (c : SessionCredential) (issued_at : Int) (token : Text) : Prop :=
  token = generate_session_token P c.access_key c.secret_key issued_at

/-- No two credentials of the store have one fingerprint. -/
def CredentialStore.Distinct (store : CredentialStore) : Prop :=
  (store.by_access_key.map (SessionCredential.fingerprint P)).Nodup

/-- A signature that is good for a message was made by signing it, and under the secrets of the store only the messages
    of tokens are signed. -/
def UnforgedSessions (store : CredentialStore) (token : Text) : Prop :=
  ∀ c ∈ store.by_access_key, ∀ issued_hex signature, splitChars '.' token = [issued_hex,signature,c.fingerprint P] →
    signature = session_signature P c.secret_key (session_message c.access_key issued_hex (c.fingerprint P)) →
    ∃ access_key issued_at, -2 ^ 63 ≤ issued_at ∧ issued_at < 2 ^ 63 ∧
      session_message c.access_key issued_hex (c.fingerprint P) =
        session_message access_key (i64_hex issued_at) (session_fingerprint P access_key c.secret_key)

end

/-! ### Numbers -/

/-- Characters of hexadecimal digits. -/
def HexDigits (t : Text) : Prop := ∀ c ∈ t, ∃ d, to_digit 16 c = some d

theorem HexDigits.free {t : Text} (hex : HexDigits t) {c : Char} (other : to_digit 16 c = none) : c ∉ t := by
  intro member
  obtain ⟨d,digit⟩ := hex c member
  rw [other] at digit
  cases digit

theorem hexDigits_number (n : Nat) : HexDigits (Nat.toDigits 16 n) := by
  obtain ⟨ds,spells,_⟩ := @spells_number 16 (by decide) (by decide) n
  exact spells.digit

theorem hexDigits_hexChars (data : Bytes) : HexDigits (hexChars data) := by
  have digit : ∀ n < 16, (to_digit 16 (hexDigit n)).isSome := by decide
  induction data with
  | nil => simp [HexDigits,hexChars]
  | cons b rest ih =>
    have bound := b.toNat_lt
    intro c member
    rw [hexChars,List.mem_cons,List.mem_cons] at member
    rcases member with rfl | rfl | later
    · exact Option.isSome_iff_exists.mp (digit _ (by omega))
    · exact Option.isSome_iff_exists.mp (digit _ (by omega))
    · exact ih c later

theorem digits_number (n : Nat) : ∃ ds, ds ≠ [] ∧ digits 16 (Nat.toDigits 16 n) = (ds,[]) ∧
    ds.foldl (fun n d => n * 16 + d) 0 = n := by
  obtain ⟨ds,spells,value,_⟩ := @spells_number 16 (by decide) (by decide) n
  have read := digits_append spells (t := []) (by simp [Stops])
  rw [List.append_nil] at read
  refine ⟨ds,?_,read,value⟩
  rintro rfl
  have long := spells.length_eq
  have some_digit := @Nat.length_toDigits_pos 16 n
  rw [long] at some_digit
  exact absurd some_digit (Nat.lt_irrefl 0)

/-- A number that is written in hexadecimal digits is read if it is no more than the largest `i64`. -/
theorem i64_from_str_digits (n : Nat) :
    i64_from_str_radix_16 (Nat.toDigits 16 n) = if n < 2 ^ 63 then some (n : Int) else none := by
  obtain ⟨ds,some_digit,read,value⟩ := digits_number n
  have hex := hexDigits_number n
  unfold i64_from_str_radix_16
  split
  next rest same => exact absurd (by rw [same]; simp) (hex.free (by decide : to_digit 16 '-' = none))
  next rest same => exact absurd (by rw [same]; simp) (hex.free (by decide : to_digit 16 '+' = none))
  next =>
    simp only [read,List.isEmpty_iff,some_digit,false_or,not_true_eq_false,if_false,Option.bind_some,value]

/-- Times from the epoch on are read back; earlier ones are not. -/
theorem i64_from_str_hex {t : Int} (low : -2 ^ 63 ≤ t) (high : t < 2 ^ 63) :
    i64_from_str_radix_16 (i64_hex t) = if 0 ≤ t then some t else none := by
  rw [i64_hex,i64_from_str_digits]
  by_cases positive : 0 ≤ t
  · rw [if_pos positive,if_pos (by omega)]
    congr 1
    omega
  · rw [if_neg positive,if_neg (by omega)]

theorem hexDigits_of_digits {s : Text} (all : (digits 16 s).2 = []) : HexDigits s := by
  induction s with
  | nil => simp [HexDigits]
  | cons c rest ih =>
    rw [digits] at all
    cases digit : to_digit 16 c with
    | none => simp [digit] at all
    | some d =>
      simp only [digit] at all
      intro other member
      obtain rfl | later := List.mem_cons.mp member
      · exact ⟨d,digit⟩
      · exact ih all other later

/-- Whatever is read as a number has no colon in it. -/
theorem i64_from_str_free {s : Text} {t : Int} (read : i64_from_str_radix_16 s = some t) : ':' ∉ s := by
  have unsigned {u : Text} {n : Nat} (value : (if (digits 16 u).1.isEmpty ∨ ¬ (digits 16 u).2.isEmpty then none
      else some ((digits 16 u).1.foldl (fun n d => n * 16 + d) 0)) = some n) : ':' ∉ u := by
    by_cases bad : (digits 16 u).1.isEmpty ∨ ¬ (digits 16 u).2.isEmpty
    · rw [if_pos bad] at value
      cases value
    · rw [not_or,not_not,List.isEmpty_iff] at bad
      exact (hexDigits_of_digits (List.isEmpty_iff.mp bad.2)).free (by decide)
  unfold i64_from_str_radix_16 at read
  split at read
  next rest =>
    obtain ⟨n,value,_⟩ := Option.bind_eq_some_iff.mp read
    simpa using unsigned value
  next rest =>
    obtain ⟨n,value,_⟩ := Option.bind_eq_some_iff.mp read
    simpa using unsigned value
  next =>
    obtain ⟨n,value,_⟩ := Option.bind_eq_some_iff.mp read
    exact unsigned value

/-! ### Messages and tokens -/

theorem fingerprint_hex (P : Primitives) (access_key secret_key : Text) :
    HexDigits (session_fingerprint P access_key secret_key) := hexDigits_hexChars _

/-- Read from its end, a message has one access key and one time in it, whatever colons the access key has. -/
theorem session_message_injective {a a' issued issued' fp fp' : Text} (plain : ':' ∉ issued) (plain' : ':' ∉ issued')
    (free : ':' ∉ fp) (free' : ':' ∉ fp') (same : session_message a issued fp = session_message a' issued' fp') :
    a = a' ∧ issued = issued' ∧ fp = fp' := by
  have backwards (a issued fp : Text) : (session_message a issued fp).reverse =
      fp.reverse ++ ':' :: (issued.reverse ++ ':' :: a.reverse) := by
    simp [session_message]
  have cut {u v : Text} (outside : ':' ∉ u) : Text.split_once ':' (u.reverse ++ ':' :: v) = some (u.reverse,v) :=
    Text.split_once_some.mpr ⟨rfl,by simpa using outside⟩
  have last := congrArg (fun t : Text => Text.split_once ':' t.reverse) same
  simp only [backwards,cut free,cut free',Option.some.injEq,Prod.mk.injEq,List.reverse_inj] at last
  obtain ⟨fps,rest⟩ := last
  have middle := congrArg (Text.split_once ':') rest
  rw [cut plain,cut plain'] at middle
  simp only [Option.some.injEq,Prod.mk.injEq,List.reverse_inj] at middle
  exact ⟨middle.2,middle.1,fps⟩

theorem splitChars_three {first second third : Text} (outside : '.' ∉ first) (outside' : '.' ∉ second)
    (outside'' : '.' ∉ third) : splitChars '.' (first ++ '.' :: (second ++ '.' :: third)) = [first,second,third] := by
  rw [splitChars_append_sep,splitChars_append_sep,splitChars_whole outside,splitChars_whole outside',
    splitChars_whole outside'']
  rfl

/-- A text is its pieces with the separators between them. -/
theorem intercalate_splitChars (sep : Char) (t : Text) : [sep].intercalate (splitChars sep t) = t := by
  induction t with
  | nil => rfl
  | cons c rest ih =>
    rw [splitChars]
    by_cases same : c = sep
    · rw [if_pos same]
      cases pieces : splitChars sep rest with
      | nil => exact absurd pieces (splitChars_ne_nil sep rest)
      | cons piece more =>
        rw [pieces] at ih
        simp only [List.intercalate,List.intersperse_cons₂,List.flatten_cons,List.nil_append] at ih ⊢
        rw [ih,same]
        rfl
    · rw [if_neg same]
      cases pieces : splitChars sep rest with
      | nil => exact absurd pieces (splitChars_ne_nil sep rest)
      | cons piece more =>
        rw [pieces] at ih
        cases more with
        | nil => simpa [List.intercalate] using ih
        | cons next others =>
          simp only [List.intercalate,List.intersperse_cons₂,List.flatten_cons,List.cons_append] at ih ⊢
          rw [ih]

theorem three_of_splitChars {t first second third : Text} (pieces : splitChars '.' t = [first,second,third]) :
    t = first ++ '.' :: (second ++ '.' :: third) := by
  have joined := intercalate_splitChars '.' t
  rw [pieces] at joined
  rw [← joined]
  simp [List.intercalate]

section
variable {P : Primitives} {now : Timestamp} {token : Text} {store : CredentialStore} {c : SessionCredential} {t : Int}

theorem SessionCredential.Minted.pieces (minted : c.Minted P t token) : splitChars '.' token = [i64_hex t,
    session_signature P c.secret_key (session_message c.access_key (i64_hex t) (c.fingerprint P)),c.fingerprint P] := by
  rw [minted,generate_session_token]
  exact splitChars_three ((hexDigits_number _).free (by decide)) ((hexDigits_hexChars _).free (by decide))
    ((fingerprint_hex P _ _).free (by decide))

/-- The time is within the window, whether or not the difference wraps around. -/
theorem window_iff (now : Timestamp) {t : Int} (low : 0 ≤ t) (high : t < 2 ^ 63) :
    ¬ (TOKEN_MAX_AGE_SECS < (now.seconds - t).bmod (2 ^ 64) ∨ now.seconds + 60 < t) ↔
      now.seconds - TOKEN_MAX_AGE_SECS ≤ t ∧ t ≤ now.seconds + 60 := by
  obtain ⟨seconds,after_min,before_max⟩ := now
  unfold TOKEN_MAX_AGE_SECS
  simp only
  by_cases late : seconds + 60 < t
  · omega
  · have kept : (seconds - t).bmod (2 ^ 64) = seconds - t := by
      rw [Int.bmod_eq_of_le] <;> omega
    rw [kept]
    omega

/-- What a token that is accepted for a credential looks like. -/
theorem verify_session_token_iff : verify_session_token P now token c.access_key c.secret_key = true ↔
    ∃ issued_hex issued_at, splitChars '.' token = [issued_hex,
        session_signature P c.secret_key (session_message c.access_key issued_hex (c.fingerprint P)),c.fingerprint P] ∧
      i64_from_str_radix_16 issued_hex = some issued_at ∧
      ¬ (TOKEN_MAX_AGE_SECS < (now.seconds - issued_at).bmod (2 ^ 64) ∨ now.seconds + 60 < issued_at) := by
  unfold verify_session_token
  constructor
  · intro accepted
    split at accepted
    next issued_hex signature fp pieces =>
      dsimp only at accepted
      by_cases same : constant_time_eq (Text.bytes fp) (session_fingerprint P c.access_key c.secret_key).bytes = true
      · rw [same] at accepted
        obtain rfl : fp = c.fingerprint P := bytes_inj.mp ((constant_time_eq_iff _ _).mp same)
        cases read : i64_from_str_radix_16 issued_hex with
        | none => simp [read] at accepted
        | some issued_at =>
          simp only [read,Bool.not_true,Bool.false_eq_true,if_false] at accepted
          by_cases outside : TOKEN_MAX_AGE_SECS < (now.seconds - issued_at).bmod (2 ^ 64) ∨ now.seconds + 60 < issued_at
          · rw [if_pos outside] at accepted
            cases accepted
          · rw [if_neg outside] at accepted
            obtain rfl := bytes_inj.mp ((constant_time_eq_iff _ _).mp accepted)
            exact ⟨issued_hex,issued_at,pieces,read,outside⟩
      · simp [same] at accepted
    next => cases accepted
  · rintro ⟨issued_hex,issued_at,pieces,read,within⟩
    rw [pieces]
    simp only [SessionCredential.fingerprint,constant_time_eq_refl,Bool.not_true,Bool.false_eq_true,if_false,read,
      if_neg within]

/-- A token minted from the epoch on is accepted for its credential within the window. -/
theorem verify_minted (minted : c.Minted P t token) (low : -2 ^ 63 ≤ t) (high : t < 2 ^ 63) :
    verify_session_token P now token c.access_key c.secret_key = true ↔
      0 ≤ t ∧ now.seconds - TOKEN_MAX_AGE_SECS ≤ t ∧ t ≤ now.seconds + 60 := by
  have read := i64_from_str_hex low high
  rw [verify_session_token_iff,minted.pieces]
  constructor
  · rintro ⟨issued_hex,issued_at,pieces,number,within⟩
    simp only [List.cons.injEq] at pieces
    obtain ⟨rfl,_⟩ := pieces
    by_cases positive : 0 ≤ t
    · rw [if_pos positive,number] at read
      obtain rfl := Option.some.inj read
      exact ⟨positive,(window_iff now positive high).mp within⟩
    · rw [if_neg positive,number] at read
      cases read
  · rintro ⟨positive,within⟩
    rw [if_pos positive] at read
    exact ⟨_,t,rfl,read,(window_iff now positive high).mpr within⟩

/-! ### The store -/

namespace CredentialStore

theorem lookup_listed (listed : c ∈ store.by_access_key) :
    store.lookup c.access_key = if c.enabled then some c else none := by
  have first : (store.by_access_key.find? fun d => d.access_key = c.access_key) = some c := by
    cases found : store.by_access_key.find? fun d => d.access_key = c.access_key with
    | none => exact absurd (List.find?_eq_none.mp found c listed) (by simp)
    | some d =>
      have same : d.access_key = c.access_key := by simpa using List.find?_some found
      rw [List.inj_on_of_nodup_map store.one_each (List.mem_of_find?_eq_some found) listed same]
  rw [lookup,first]
  rfl

theorem mem_candidates : c ∈ store.list_access_keys.filterMap store.lookup ↔
    c ∈ store.by_access_key ∧ c.enabled = true := by
  rw [List.mem_filterMap]
  constructor
  · rintro ⟨key,member,found⟩
    obtain ⟨d,enabled,rfl⟩ := List.mem_map.mp member
    obtain ⟨listed,on⟩ := List.mem_filter.mp enabled
    rw [lookup_listed listed,if_pos on] at found
    obtain rfl := Option.some.inj found
    exact ⟨listed,on⟩
  · rintro ⟨listed,on⟩
    exact ⟨c.access_key,List.mem_map.mpr ⟨c,List.mem_filter.mpr ⟨listed,on⟩,rfl⟩,by rw [lookup_listed listed,if_pos on]⟩

/-- With distinct fingerprints, the one credential that has the fingerprint is found. -/
theorem lookup_by_session_fingerprint_iff (distinct : store.Distinct P) {fp : Text} :
    store.lookup_by_session_fingerprint P fp = some c ↔
      c ∈ store.by_access_key ∧ c.enabled = true ∧ c.fingerprint P = fp := by
  unfold lookup_by_session_fingerprint
  constructor
  · intro found
    obtain ⟨listed,on⟩ := mem_candidates.mp (List.mem_of_find?_eq_some found)
    exact ⟨listed,on,by simpa [SessionCredential.fingerprint] using List.find?_some found⟩
  · rintro ⟨listed,on,same⟩
    cases found : (store.list_access_keys.filterMap store.lookup).find? fun cred =>
        session_fingerprint P cred.access_key cred.secret_key = fp with
    | none =>
      have other := List.find?_eq_none.mp found c (mem_candidates.mpr ⟨listed,on⟩)
      exact absurd same (by simpa [SessionCredential.fingerprint] using other)
    | some d =>
      have also : d.fingerprint P = fp := by simpa [SessionCredential.fingerprint] using List.find?_some found
      have member := (mem_candidates.mp (List.mem_of_find?_eq_some found)).1
      rw [List.inj_on_of_nodup_map distinct member listed (also.trans same.symm)]

/-- Only the credential with the fingerprint of the token is asked. -/
theorem resolve_iff (distinct : store.Distinct P) {a : Text} :
    store.resolve_legacy_console_access_key P now token = some a ↔
      ∃ c ∈ store.by_access_key, c.enabled = true ∧ c.access_key = a ∧
        verify_session_token P now token c.access_key c.secret_key = true := by
  unfold resolve_legacy_console_access_key
  constructor
  · intro resolved
    obtain ⟨fp,_,resolved⟩ := Option.bind_eq_some_iff.mp resolved
    obtain ⟨c,found,resolved⟩ := Option.bind_eq_some_iff.mp resolved
    obtain ⟨listed,on,_⟩ := (lookup_by_session_fingerprint_iff distinct).mp found
    by_cases accepted : verify_session_token P now token c.access_key c.secret_key = true
    · rw [if_pos accepted] at resolved
      exact ⟨c,listed,on,Option.some.inj resolved,accepted⟩
    · rw [if_neg accepted] at resolved
      cases resolved
  · rintro ⟨c,listed,on,rfl,accepted⟩
    obtain ⟨issued_hex,issued_at,pieces,_⟩ := verify_session_token_iff.mp accepted
    have found := (lookup_by_session_fingerprint_iff distinct).mpr ⟨listed,on,rfl⟩
    rw [pieces]
    simp only [List.getElem?_cons_succ,List.getElem?_cons_zero,Option.bind_some,found,if_pos accepted]

end CredentialStore

/-- An accepted token that is not forged was minted, for the credential it is accepted for. -/
theorem minted_of_verified (unforged : UnforgedSessions P store token) (listed : c ∈ store.by_access_key)
    (accepted : verify_session_token P now token c.access_key c.secret_key = true) :
    ∃ t, -2 ^ 63 ≤ t ∧ t < 2 ^ 63 ∧ c.Minted P t token := by
  obtain ⟨issued_hex,issued_at,pieces,read,_⟩ := verify_session_token_iff.mp accepted
  obtain ⟨access_key,t,low,high,same⟩ := unforged c listed _ _ pieces rfl
  refine ⟨t,low,high,?_⟩
  have free (access_key : Text) : ':' ∉ session_fingerprint P access_key c.secret_key :=
    (fingerprint_hex P access_key c.secret_key).free (by decide)
  obtain ⟨_,rfl,_⟩ := session_message_injective (i64_from_str_free read) ((hexDigits_number _).free (by decide))
    (free c.access_key) (free access_key) same
  exact three_of_splitChars pieces

/-- A token resolves to a credential exactly when it was minted for it in the window, from the epoch on; and a token
    that was minted for one credential resolves to no other. -/
theorem session_resolves_iff (P : Primitives) (store : CredentialStore) (distinct : store.Distinct P) (now : Timestamp)
    (token : Text) (unforged : UnforgedSessions P store token) :
    (∀ a, store.resolve_legacy_console_access_key P now token = some a ↔
      ∃ c ∈ store.by_access_key, c.enabled = true ∧ c.access_key = a ∧
        ∃ t, 0 ≤ t ∧ now.seconds - 604800 ≤ t ∧ t ≤ now.seconds + 60 ∧ c.Minted P t token) ∧
    ∀ c ∈ store.by_access_key, ∀ t, c.Minted P t token →
      ∀ a, store.resolve_legacy_console_access_key P now token = some a → a = c.access_key := by
  constructor
  · intro a
    rw [CredentialStore.resolve_iff distinct]
    constructor
    · rintro ⟨c,listed,on,rfl,accepted⟩
      obtain ⟨t,low,high,minted⟩ := minted_of_verified unforged listed accepted
      obtain ⟨positive,early,late⟩ := (verify_minted minted low high).mp accepted
      exact ⟨c,listed,on,rfl,t,positive,early,late,minted⟩
    · rintro ⟨c,listed,on,rfl,t,positive,early,late,minted⟩
      have bound := now.before_max
      exact ⟨c,listed,on,rfl,(verify_minted minted (by omega) (by omega)).mpr ⟨positive,early,late⟩⟩
  · intro c listed t minted a resolved
    obtain ⟨d,listed',_,rfl,accepted⟩ := (CredentialStore.resolve_iff distinct).mp resolved
    obtain ⟨issued_hex,_,pieces,_⟩ := verify_session_token_iff.mp accepted
    rw [minted.pieces] at pieces
    simp only [List.cons.injEq] at pieces
    rw [List.inj_on_of_nodup_map distinct listed' listed pieces.2.2.1.symm]

/-- A minted token is not forged, whoever shows it. -/
theorem unforged_of_minted {d : SessionCredential} (low : -2 ^ 63 ≤ t) (high : t < 2 ^ 63) (minted : d.Minted P t token) :
    UnforgedSessions P store token := by
  intro c _ issued_hex signature pieces _
  rw [minted.pieces] at pieces
  simp only [List.cons.injEq] at pieces
  exact ⟨c.access_key,t,low,high,by rw [← pieces.1]; rfl⟩

end

namespace Sample

def first_user : SessionCredential := ⟨"a:b".toList,"secret".toList,true⟩

/-- With the secret of the first user. -/
def second_user : SessionCredential := ⟨"b".toList,"secret".toList,true⟩

def two_users : CredentialStore := ⟨[first_user,second_user],by decide⟩

def at_epoch : Timestamp := ⟨0,by decide,by decide⟩

/-- The token of the first user, minted at the given time. -/
def first_token (t : Int) : Text := generate_session_token primitives first_user.access_key first_user.secret_key t

end Sample

theorem session_resolves_two_users :
    (∀ a, Sample.two_users.resolve_legacy_console_access_key Sample.primitives Sample.at_epoch (Sample.first_token 5) = some a ↔
      ∃ c ∈ Sample.two_users.by_access_key, c.enabled = true ∧ c.access_key = a ∧ ∃ t, 0 ≤ t ∧
        Sample.at_epoch.seconds - 604800 ≤ t ∧ t ≤ Sample.at_epoch.seconds + 60 ∧
          c.Minted Sample.primitives t (Sample.first_token 5)) ∧
    ∀ c ∈ Sample.two_users.by_access_key, ∀ t, c.Minted Sample.primitives t (Sample.first_token 5) →
      ∀ a, Sample.two_users.resolve_legacy_console_access_key Sample.primitives Sample.at_epoch (Sample.first_token 5) = some a →
        a = c.access_key :=
  session_resolves_iff Sample.primitives Sample.two_users (by unfold CredentialStore.Distinct; decide +kernel)
    Sample.at_epoch (Sample.first_token 5)
    (unforged_of_minted (d := Sample.first_user) (t := 5) (by decide) (by decide) rfl)

/-- A token minted before the epoch does not resolve, though it is young enough. -/
theorem early_token_unresolved : UnforgedSessions Sample.primitives Sample.two_users (Sample.first_token (-5)) ∧
    ¬ (Sample.two_users.resolve_legacy_console_access_key Sample.primitives Sample.at_epoch (Sample.first_token (-5)) =
        some Sample.first_user.access_key ↔
      ∃ c ∈ Sample.two_users.by_access_key, c.enabled = true ∧ c.access_key = Sample.first_user.access_key ∧
        ∃ t, Sample.at_epoch.seconds - 604800 ≤ t ∧ t ≤ Sample.at_epoch.seconds + 60 ∧
          c.Minted Sample.primitives t (Sample.first_token (-5))) := by
  refine ⟨unforged_of_minted (d := Sample.first_user) (t := -5) (by decide) (by decide) rfl,fun claimed => ?_⟩
  have unresolved : Sample.two_users.resolve_legacy_console_access_key Sample.primitives Sample.at_epoch
      (Sample.first_token (-5)) = none := by decide +kernel
  have resolved := claimed.mpr ⟨Sample.first_user,by simp [Sample.two_users],rfl,rfl,-5,by decide,by decide,rfl⟩
  rw [unresolved] at resolved
  cases resolved

end Maxio
