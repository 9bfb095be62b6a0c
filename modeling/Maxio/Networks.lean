import Maxio.FirstBits
import Maxio.PolicySpec

/-!
Networks in CIDR notation: the check of a policy's source addresses, and the trusted proxies' check of theirs.
-/

namespace Maxio

/-- Bits of an address of the same family. -/
def IpAddr.width : IpAddr → Nat
  | .V4 _ => 32
  | .V6 _ => 128

/-- `char::is_whitespace`. -/
def white_space (c : Char) : Bool :=
  let n := c.toNat
  9 ≤ n && n ≤ 13 || n = 32 || n = 0x85 || n = 0xA0 || n = 0x1680 || 0x2000 ≤ n && n ≤ 0x200A || n = 0x2028 ||
    n = 0x2029 || n = 0x202F || n = 0x205F || n = 0x3000

/-- `str::trim`. -/
def str_trim (t : Text) : Text := ((t.dropWhile white_space).reverse.dropWhile white_space).reverse

/-! ### Trusted networks -/

/-- A network of a trusted proxy. -/
structure Network where
  addr : IpAddr
  prefix_len : Fin 256
  within : prefix_len.val ≤ addr.width

/-- `Network::contains`. The prefix fits the address, so that no shift and no index goes past its end. -/
def Network.contains (network : Network) (ip : IpAddr) : Bool := match network.addr,ip with
  | .V4 net,.V4 addr =>
    let mask : BitVec 32 := if network.prefix_len.val = 0 then 0
      else BitVec.allOnes 32 <<< (32 - network.prefix_len.val)
    net &&& mask == addr &&& mask
  | .V6 net,.V6 addr =>
    let net_segments := octets net
    let addr_segments := octets addr
    let full_bytes := network.prefix_len.val / 8
    let remainder := network.prefix_len.val % 8
    if net_segments.take full_bytes ≠ addr_segments.take full_bytes then false
    else if remainder = 0 then true
    else
      let mask := (0xff : BitVec 8) <<< (8 - remainder)
      match net_segments[full_bytes]?,addr_segments[full_bytes]? with
      | some n,some a => n &&& mask == a &&& mask
      | _,_ => false
  | _,_ => false

def network_of (addr : IpAddr) (prefix_len : Fin 256) : Option Network :=
  if within : prefix_len.val ≤ addr.width then some ⟨addr,prefix_len,within⟩ else none

def parse_network (spec : Text) : Option Network := match Text.split_once '/' spec with
  | some (addr,length) => (parse_ip (String.ofList (str_trim addr))).bind fun addr =>
      (parse_u8 (str_trim length)).bind fun prefix_len => network_of addr prefix_len
  | none => (parse_ip (String.ofList spec)).bind fun addr =>
      network_of addr (match addr with | .V4 _ => 32 | .V6 _ => 128)

/-! ### Matching -/

/-- Both addresses are of one family, and as many of their first bits are the same as the prefix says and they have. -/
def SameNetwork (prefix_len : Nat) : IpAddr → IpAddr → Prop
  | .V4 net,.V4 addr => FirstBits.SameFirst (min prefix_len 32) net addr
  | .V6 net,.V6 addr => FirstBits.SameFirst (min prefix_len 128) net addr
  | _,_ => False

/-- No index of the check goes past the sixteen bytes of the addresses. -/
def WithinReach (ip network : IpAddr) (prefix_len : Nat) : Prop := match network,ip with
  | .V6 net,.V6 addr => prefix_len ≤ 128 ∨ prefix_len < 136 ∧ net ≠ addr
  | _,_ => True

section
open FirstBits

theorem getElem?_octets (bits : BitVec 128) {i : Nat} (inside : i < 16) :
    (octets bits)[i]? = some (bits.extractLsb' (8 * (15 - i)) 8) := by
  rw [octets,List.getElem?_ofFn,dif_pos inside]

theorem sameFirst_octets_iff {net addr : BitVec 128} {full rest : Nat} (inside : full < 16 ∨ full = 16 ∧ rest = 0)
    (short : rest < 8) :
    SameFirst (8 * full + rest) net addr ↔ (octets net).take full = (octets addr).take full ∧
      SameFirst rest (net.extractLsb' (8 * (15 - full)) 8) (addr.extractLsb' (8 * (15 - full)) 8) :=
  @sameFirst_bytes_iff 16 net addr full rest inside short

theorem take_octets_eq {net addr : BitVec 128} : (octets net).take 16 = (octets addr).take 16 ↔ net = addr := by
  have whole := @sameFirst_octets_iff net addr 16 0 (.inr ⟨rfl,rfl⟩) (by decide)
  rw [show 8 * 16 + 0 = 128 from rfl,sameFirst_all] at whole
  rw [whole]
  simp [sameFirst_zero]

/-- A mask that shifts all ones out is zero. -/
theorem masked_zero_iff {w : Nat} (x y : BitVec w) : x &&& 0 = y &&& 0 ↔ SameFirst 0 x y := by
  simp [sameFirst_zero]

theorem v4_mask_iff {net addr : BitVec 32} {count : Nat} (fits : count ≤ 32) :
    let mask : BitVec 32 := if count = 0 then 0 else BitVec.allOnes 32 <<< (32 - count)
    net &&& mask = addr &&& mask ↔ SameFirst count net addr := by
  by_cases zero : count = 0
  · rw [if_pos zero,zero]
    exact masked_zero_iff net addr
  · rw [if_neg zero]
    exact masked_eq_iff fits

theorem ones_shifted (count : Nat) : ((255 <<< count : Nat) : BitVec 8) = (0xff : BitVec 8) <<< count := by
  apply BitVec.eq_of_toNat_eq
  simp [BitVec.toNat_shiftLeft]

/-- The bytes and the last mask of the check for version 6. -/
theorem v6_bytes_iff {net addr : BitVec 128} {count : Nat} (fits : count ≤ 128) (partial_byte : count % 8 ≠ 0) :
    ∃ n a, (octets net)[count / 8]? = some n ∧ (octets addr)[count / 8]? = some a ∧
      (SameFirst count net addr ↔ (octets net).take (count / 8) = (octets addr).take (count / 8) ∧
        n &&& (0xff : BitVec 8) <<< (8 - count % 8) = a &&& (0xff : BitVec 8) <<< (8 - count % 8)) := by
  have inside : count / 8 < 16 := by omega
  have short := Nat.mod_lt count (show 0 < 8 by decide)
  refine ⟨_,_,getElem?_octets net inside,getElem?_octets addr inside,?_⟩
  have split := @sameFirst_octets_iff net addr (count / 8) (count % 8) (.inl inside) short
  rw [Nat.div_add_mod] at split
  rw [split]
  exact and_congr_right fun _ => (masked_eq_iff (w := 8) (by omega)).symm

/-- Bits past the end are the same as any others. -/
theorem sameFirst_min {w : Nat} (x y : BitVec w) (count : Nat) :
    SameFirst (min count w) x y ↔ SameFirst count x y := by
  by_cases short : count ≤ w
  · rw [min_eq_left short]
  · rw [min_eq_right (by omega),sameFirst_all,sameFirst_beyond (by omega)]

/-! ### The check of a policy -/

theorem v4_check_iff (net addr : BitVec 32) (prefix_len : Fin 256) :
    ∃ b, ip_in_network (.V4 addr) (.V4 net) prefix_len = some b ∧
      (b = true ↔ SameNetwork prefix_len.val (.V4 net) (.V4 addr)) := by
  refine ⟨_,rfl,?_⟩
  rw [beq_iff_eq,SameNetwork,sameFirst_min]
  by_cases long : prefix_len.val ≥ 32
  · rw [if_pos long,sameFirst_beyond long,BitVec.and_allOnes,BitVec.and_allOnes]
  · rw [if_neg long]
    exact v4_mask_iff (by omega)

/-- Up to the full width the check is exact. -/
theorem v6_check_iff (net addr : BitVec 128) {prefix_len : Fin 256} (fits : prefix_len.val ≤ 128) :
    ∃ b, ip_in_network (.V6 addr) (.V6 net) prefix_len = some b ∧
      (b = true ↔ SameNetwork prefix_len.val (.V6 net) (.V6 addr)) := by
  rw [SameNetwork,sameFirst_min]
  simp only [ip_in_network]
  rw [if_neg (by omega)]
  by_cases whole : prefix_len.val % 8 = 0
  · have split := @sameFirst_octets_iff net addr (prefix_len.val / 8) 0 (by omega) (by decide)
    have count : 8 * (prefix_len.val / 8) + 0 = prefix_len.val := by omega
    rw [count,and_iff_left (sameFirst_zero _ _)] at split
    rw [split]
    by_cases same : (octets net).take (prefix_len.val / 8) = (octets addr).take (prefix_len.val / 8)
    · rw [if_neg (not_not_intro same),if_pos whole]
      exact ⟨true,rfl,iff_of_true rfl same⟩
    · rw [if_pos same]
      exact ⟨false,rfl,iff_of_false Bool.false_ne_true same⟩
  · obtain ⟨n,a,byte,byte',exact_iff⟩ := @v6_bytes_iff net addr prefix_len.val fits whole
    rw [exact_iff]
    by_cases same : (octets net).take (prefix_len.val / 8) = (octets addr).take (prefix_len.val / 8)
    · rw [if_neg (not_not_intro same),if_neg whole,byte,byte']
      refine ⟨_,rfl,?_⟩
      rw [beq_iff_eq,and_iff_right same,ones_shifted]
    · rw [if_pos same]
      exact ⟨false,rfl,iff_of_false Bool.false_ne_true fun both => same both.1⟩

/-- One address and a prefix that ends inside a seventeenth byte: the byte is not there. -/
theorem v6_beyond_same (net : BitVec 128) {prefix_len : Fin 256} (long : 128 < prefix_len.val) :
    ip_in_network (.V6 net) (.V6 net) prefix_len = none := by
  simp only [ip_in_network]
  by_cases far : 16 < prefix_len.val / 8
  · rw [if_pos far]
  · have last : prefix_len.val / 8 = 16 := by omega
    have part : ¬ prefix_len.val % 8 = 0 := by omega
    have gone : (octets net)[16]? = none := List.getElem?_eq_none (octets_length net).le
    rw [if_neg far,if_neg (not_not_intro rfl),if_neg part,last,gone]

/-- Other addresses are told apart before that byte, unless the prefix is longer still. -/
theorem v6_beyond_other {net addr : BitVec 128} {prefix_len : Fin 256} (long : 128 < prefix_len.val)
    (other : net ≠ addr) :
    ip_in_network (.V6 addr) (.V6 net) prefix_len = if prefix_len.val < 136 then some false else none := by
  simp only [ip_in_network]
  by_cases near : prefix_len.val < 136
  · have last : prefix_len.val / 8 = 16 := by omega
    have apart : (octets net).take 16 ≠ (octets addr).take 16 := fun same => other (take_octets_eq.mp same)
    rw [if_pos near,if_neg (by omega),last,if_pos apart]
  · rw [if_neg near,if_pos (by omega)]

/-- The check answers, and rightly, exactly where it stays within reach. -/
theorem ip_in_network_iff (ip network : IpAddr) (prefix_len : Fin 256) :
    (∃ b, ip_in_network ip network prefix_len = some b ∧ (b = true ↔ SameNetwork prefix_len.val network ip)) ↔
      WithinReach ip network prefix_len.val := by
  cases network with
  | V4 net =>
    cases ip with
    | V4 addr => exact iff_of_true (v4_check_iff net addr prefix_len) trivial
    | V6 addr => exact iff_of_true ⟨false,rfl,iff_of_false Bool.false_ne_true id⟩ trivial
  | V6 net =>
    cases ip with
    | V4 addr => exact iff_of_true ⟨false,rfl,iff_of_false Bool.false_ne_true id⟩ trivial
    | V6 addr =>
      by_cases fits : prefix_len.val ≤ 128
      · exact iff_of_true (v6_check_iff net addr fits) (.inl fits)
      · have long : 128 < prefix_len.val := by omega
        have reach : WithinReach (.V6 addr) (.V6 net) prefix_len.val ↔ prefix_len.val < 136 ∧ net ≠ addr :=
          ⟨fun within => within.resolve_left fits,.inr⟩
        rw [reach]
        by_cases same : net = addr
        · subst same
          rw [v6_beyond_same net long]
          exact iff_of_false (fun answer => nomatch answer.choose_spec.1) fun other => other.2 rfl
        · rw [v6_beyond_other long same]
          by_cases near : prefix_len.val < 136
          · rw [if_pos near]
            refine iff_of_true ⟨false,rfl,iff_of_false Bool.false_ne_true fun all => same ?_⟩ ⟨near,same⟩
            rwa [SameNetwork,sameFirst_min,sameFirst_beyond (by omega)] at all
          · rw [if_neg near]
            exact iff_of_false (fun answer => nomatch answer.choose_spec.1) fun other => near other.1

/-! ### The check of a trusted proxy -/

/-- The two copies agree on every network of a trusted proxy. -/
theorem contains_agrees (network : Network) (ip : IpAddr) :
    ip_in_network ip network.addr network.prefix_len = some (network.contains ip) := by
  obtain ⟨addr,prefix_len,within⟩ := network
  cases addr with
  | V4 net =>
    cases ip with
    | V4 addr =>
      have fits : prefix_len.val ≤ 32 := within
      simp only [ip_in_network,Network.contains,Option.some.injEq]
      by_cases full : prefix_len.val ≥ 32
      · have all : prefix_len.val = 32 := by omega
        rw [if_pos full,if_neg (by omega),all]
        rfl
      · rw [if_neg full]
    | V6 addr => rfl
  | V6 net =>
    cases ip with
    | V4 addr => rfl
    | V6 addr =>
      have fits : prefix_len.val ≤ 128 := within
      simp only [ip_in_network,Network.contains]
      rw [if_neg (by omega)]
      by_cases same : (octets net).take (prefix_len.val / 8) = (octets addr).take (prefix_len.val / 8)
      · rw [if_neg (not_not_intro same),if_neg (not_not_intro same)]
        by_cases whole : prefix_len.val % 8 = 0
        · rw [if_pos whole,if_pos whole]
        · obtain ⟨n,a,byte,byte',_⟩ := @v6_bytes_iff net addr prefix_len.val fits whole
          rw [if_neg whole,if_neg whole,byte,byte',← ones_shifted]
      · rw [if_pos same,if_pos same]

end

/-- A policy's check is total and exact but for prefixes that reach past a version 6 address, and the trusted
proxies' check is the same on all their networks. -/
theorem cidr_matching_laws (ip network : IpAddr) (prefix_len : Fin 256) :
    ((∃ b, ip_in_network ip network prefix_len = some b ∧ (b = true ↔ SameNetwork prefix_len.val network ip)) ↔
      WithinReach ip network prefix_len.val) ∧
    ∀ spec trusted, parse_network spec = some trusted →
      ip_in_network ip trusted.addr trusted.prefix_len = some (trusted.contains ip) :=
  ⟨ip_in_network_iff ip network prefix_len,fun _ trusted _ => contains_agrees trusted ip⟩

namespace Sample

/-- A policy for one network whose prefix is longer than its address. -/
def long_text : String :=
  "\x7b\"Statement\":[\x7b\"Effect\":\"Allow\",\"Principal\":\"*\",\"Action\":\"s3:GetObject\"," ++
  "\"Resource\":\"arn:aws:s3:::logs/*\",\"Condition\":\x7b\"IpAddress\":\x7b\"aws:SourceIp\":\"2001:db8::/200\"\x7d\x7d\x7d]\x7d"

def long_source_ip : Json := .object [("IpAddress",.object [("aws:SourceIp",.string "2001:db8::/200")])]

def long_json : Json := .object [("Statement",.array [.object [("Effect",.string "Allow"),("Principal",.string "*"),
  ("Action",.string "s3:GetObject"),("Resource",.string "arn:aws:s3:::logs/*"),("Condition",long_source_ip)]])]

def long_from_str (raw : String) : Except String Json :=
  if raw = long_text then .ok long_json else .error "expected value at line 1 column 1"

def long_policy : BucketPolicy where
  version := ""
  statement := [{
    effect := "Allow", principal := .string "*", action := .One "s3:GetObject"
    resource := .One "arn:aws:s3:::logs/*", condition := some long_source_ip }]

theorem long_parsed : parse_policy long_from_str long_text = .ok long_policy := by
  unfold parse_policy long_from_str
  rw [if_pos rfl]
  rfl

theorem long_valid : validate_policy_v2 long_from_str "logs" long_text = .ok () := by
  unfold validate_policy_v2
  rw [long_parsed]
  have condition : validate_condition long_source_ip = .ok () := by
    simp only [validate_condition,long_source_ip,Json.as_object,members_singleton]
    decide +kernel
  change (do
    validate_statement "logs" _
    .ok () : Except String Unit) = .ok ()
  unfold validate_statement
  simp only [condition]
  decide +kernel

theorem long_condition (req : PolicyRequest) :
    conditions_match long_source_ip req ⟨none,some "2001:db8::1",[],[]⟩ = none := by
  have panics : ip_matches_cidr "2001:db8::1" "2001:db8::/200" = none := by decide +kernel
  simp only [conditions_match,long_source_ip,Json.as_object,members_singleton,all_of,condition_key_matches]
  rw [if_pos ⟨trivial,by decide⟩]
  simp [condition_values,any_of,panics]

end Sample

/-- The validator takes a prefix of 200 bits, and a request from an address of version 6 then panics in the check. -/
theorem long_prefix_panics :
    validate_policy_v2 Sample.long_from_str "logs" Sample.long_text = .ok () ∧
    evaluate_policy_v2 Sample.long_from_str Sample.long_text ⟨"s3:GetObject","logs",some "a",none⟩
      ⟨none,some "2001:db8::1",[],[]⟩ = none ∧
    ¬ ∀ ip network (prefix_len : Fin 256), ∃ b, ip_in_network ip network prefix_len = some b := by
  refine ⟨Sample.long_valid,?_,?_⟩
  · unfold evaluate_policy_v2
    rw [Sample.long_parsed]
    simp only [Sample.long_policy,evaluate_statements,statement_matches_request]
    rw [Sample.long_condition]
    decide +kernel
  · intro total
    obtain ⟨b,answer⟩ := total (.V6 1) (.V6 1) 200
    rw [v6_beyond_same 1 (by decide)] at answer
    cases answer

end Maxio
