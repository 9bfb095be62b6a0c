import Maxio.Addresses
import Maxio.Networks
import Maxio.Signature

/-!
The address of a client: what the middleware makes of `X-Forwarded-For` behind trusted proxies, and what the handlers do.
-/

namespace Maxio

/-! ### Resolving -/

/-- The `X-Forwarded-For` header, when it can be read. -/
def forwarded_for (headers : HeaderMap) : Option Text := (headers.get "x-forwarded-for").bind to_str

/-- The entries that are addresses. -/
def parsed_entries (forwarded : Text) : List IpAddr :=
  (splitChars ',' forwarded).filterMap fun s => parse_ip (String.ofList (Text.trim s))

structure TrustedProxies where
  networks : List Network

namespace TrustedProxies

def parse (spec : Text) : TrustedProxies :=
  ⟨(((splitChars ',' spec).map str_trim).filter fun part => part ≠ []).filterMap parse_network⟩

variable (trusted : TrustedProxies)

def contains (ip : IpAddr) : Bool := trusted.networks.any fun n => n.contains ip

/-- The loop over the chain, the last hop first: trusted hops and the peer itself are dropped, but never the last one left. -/
def strip_hops (peer_ip : IpAddr) : List IpAddr → List IpAddr
  | last :: before :: rest =>
    if trusted.contains last || last = peer_ip then strip_hops peer_ip (before :: rest) else last :: before :: rest
  | chain => chain

def client_ip (headers : HeaderMap) (peer_ip : IpAddr) : Text :=
  if trusted.networks.isEmpty || !trusted.contains peer_ip then peer_ip.to_string
  else match forwarded_for headers with
    | none => peer_ip.to_string
    | some forwarded =>
      let chain := parsed_entries forwarded ++ [peer_ip]
      match (trusted.strip_hops peer_ip chain.reverse).reverse.head? with
      | some ip => ip.to_string
      | none => peer_ip.to_string

end TrustedProxies

/-- The trusted proxies play no part in it. -/
def client_ip_from_headers (headers : HeaderMap) (_trusted : TrustedProxies) : Text := match forwarded_for headers with
  | some forwarded =>
    let client := Text.trim (Text.first_piece ',' forwarded)
    if client ≠ [] then client else "unknown".toList
  | none => "unknown".toList

def client_ip_from_request (peer : Option IpAddr) (headers : HeaderMap) (trusted : TrustedProxies) : Text := match peer with
  | some addr => trusted.client_ip headers addr
  | none => "unknown".toList

/-! ### The address that is wanted -/

/-- The addresses of the header. -/
def forwarded_entries (headers : HeaderMap) : List IpAddr := ((forwarded_for headers).map parsed_entries).getD []

namespace TrustedProxies
variable (trusted : TrustedProxies)

def rightmost_untrusted (chain : List IpAddr) : Option IpAddr := chain.reverse.find? fun ip => !trusted.contains ip

/-- An untrusted peer; else the rightmost untrusted address of the chain, or its leftmost one. -/
def wanted_client (headers : HeaderMap) (peer_ip : IpAddr) : IpAddr :=
  if trusted.contains peer_ip then
    let chain := forwarded_entries headers ++ [peer_ip]
    (trusted.rightmost_untrusted chain).getD (chain.headD peer_ip)
  else peer_ip

/-- Behind a trusted peer the leftmost address of the header is its rightmost untrusted one, if it has any. -/
def NothingPrepended (headers : HeaderMap) (peer_ip : IpAddr) : Prop := trusted.contains peer_ip = true →
  ∀ ip, trusted.rightmost_untrusted (forwarded_entries headers) = some ip → (forwarded_entries headers).head? = some ip

variable {trusted} {headers : HeaderMap} {peer_ip : IpAddr}

/-- What the loop leaves always ends with the first of the chain. -/
theorem strip_hops_getLast (chain : List IpAddr) : (trusted.strip_hops peer_ip chain).getLast? = chain.getLast? := by
  fun_induction strip_hops trusted peer_ip chain with
  | case1 last before rest dropped ih => rw [ih,List.getLast?_cons_cons]
  | case2 last before rest kept => rfl
  | case3 chain single => rfl

theorem contains_nonempty (member : trusted.contains peer_ip = true) : trusted.networks.isEmpty = false := by
  obtain ⟨network,listed,_⟩ := List.any_eq_true.mp member
  rw [List.isEmpty_eq_false_iff_exists_mem]
  exact ⟨network,listed⟩

/-- So the loop has no effect: the client is the leftmost address of the header, whoever wrote it there. -/
theorem client_ip_eq (headers : HeaderMap) (peer_ip : IpAddr) : trusted.client_ip headers peer_ip =
    (if trusted.contains peer_ip then (forwarded_entries headers ++ [peer_ip]).headD peer_ip else peer_ip).to_string := by
  unfold client_ip
  cases inside : trusted.contains peer_ip with
  | false => simp
  | true =>
    rw [contains_nonempty inside]
    simp only [Bool.not_true,Bool.or_self,Bool.false_eq_true,if_false,if_true]
    unfold forwarded_entries
    cases forwarded_for headers with
    | none => rfl
    | some forwarded =>
      simp only [List.head?_reverse,strip_hops_getLast,List.getLast?_reverse,Option.map_some,Option.getD_some]
      cases parsed_entries forwarded with
      | nil => rfl
      | cons first rest => rfl

theorem rightmost_untrusted_append (inside : trusted.contains peer_ip = true) (entries : List IpAddr) :
    trusted.rightmost_untrusted (entries ++ [peer_ip]) = trusted.rightmost_untrusted entries := by
  simp [rightmost_untrusted,inside]

/-- What stands left of an untrusted address, with trusted hops behind it, is of no account. -/
theorem rightmost_untrusted_of_cut {front back : List IpAddr} {ip : IpAddr} (untrusted : trusted.contains ip = false)
    (hops : ∀ hop ∈ back, trusted.contains hop = true) : trusted.rightmost_untrusted (front ++ ip :: back) = some ip := by
  have none_behind : back.reverse.find? (fun ip => !trusted.contains ip) = none := by
    rw [List.find?_eq_none]
    intro hop member
    rw [hops hop (List.mem_reverse.mp member)]
    decide
  simp [rightmost_untrusted,List.find?_append,none_behind,untrusted]

/-- The middleware's address is the wanted one exactly when nothing stands in front of the rightmost untrusted one, and the
    wanted one does not depend on what stands there. -/
theorem client_ip_iff (trusted : TrustedProxies) :
    (∀ headers peer_ip, trusted.client_ip headers peer_ip = (trusted.wanted_client headers peer_ip).to_string ↔
      trusted.NothingPrepended headers peer_ip) ∧
    ∀ headers headers' peer_ip front front' ip back, forwarded_entries headers = front ++ ip :: back →
      forwarded_entries headers' = front' ++ ip :: back → trusted.contains ip = false →
      (∀ hop ∈ back, trusted.contains hop = true) →
      trusted.wanted_client headers peer_ip = trusted.wanted_client headers' peer_ip := by
  constructor
  · intro headers peer_ip
    rw [client_ip_eq,to_string_inj,wanted_client,NothingPrepended]
    cases inside : trusted.contains peer_ip with
    | false => simp
    | true =>
      simp only [if_true,true_implies]
      rw [rightmost_untrusted_append inside]
      cases found : trusted.rightmost_untrusted (forwarded_entries headers) with
      | none => simp
      | some ip =>
        cases entries : forwarded_entries headers with
        | nil =>
          rw [entries] at found
          cases found
        | cons first rest => simp
  · intro headers headers' peer_ip front front' ip back cut cut' untrusted hops
    unfold wanted_client
    cases inside : trusted.contains peer_ip with
    | false => rfl
    | true =>
      simp only [if_true]
      rw [rightmost_untrusted_append inside,rightmost_untrusted_append inside,cut,cut',
        rightmost_untrusted_of_cut untrusted hops,rightmost_untrusted_of_cut untrusted hops]
      rfl

end TrustedProxies

/-! ### The handlers' address -/

theorem splitChars_first (sep : Char) (t : Text) : ∃ rest, splitChars sep t = Text.first_piece sep t :: rest := by
  induction t with
  | nil => exact ⟨[],rfl⟩
  | cons c rest ih =>
    obtain ⟨more,pieces⟩ := ih
    by_cases same : c = sep
    · exact ⟨_,by rw [splitChars,if_pos same,Text.first_piece,List.takeWhile_cons_of_neg (by simpa using same)]⟩
    · refine ⟨more,?_⟩
      rw [splitChars,if_neg same,pieces,Text.first_piece,Text.first_piece,
        List.takeWhile_cons_of_pos (by simpa using same)]

/-- No address is written as one of these texts. -/
theorem to_string_ne {t : Text} (other : parse_ip (String.ofList t) = none) (ip : IpAddr) : ip.to_string ≠ t := by
  intro same
  have read := parse_to_string ip
  rw [same,other] at read
  cases read

/-- The first entry of the header, as the handlers take it. -/
def first_entry (headers : HeaderMap) : Option Text :=
  (forwarded_for headers).map fun forwarded => Text.trim (Text.first_piece ',' forwarded)

/-- An entry that is the text of an address is the first address of the header. -/
theorem forwarded_entries_head {headers : HeaderMap} {ip : IpAddr} (first : first_entry headers = some ip.to_string) :
    (forwarded_entries headers).head? = some ip := by
  obtain ⟨forwarded,read,same⟩ := Option.map_eq_some_iff.mp first
  obtain ⟨rest,pieces⟩ := splitChars_first ',' forwarded
  unfold forwarded_entries parsed_entries
  rw [read,Option.map_some,Option.getD_some,pieces,List.filterMap_cons,same,parse_to_string]
  rfl

theorem client_ip_from_headers_eq (headers : HeaderMap) (trusted : TrustedProxies) (ip : IpAddr) :
    client_ip_from_headers headers trusted = ip.to_string ↔ first_entry headers = some ip.to_string := by
  have unknown : ip.to_string ≠ "unknown".toList := to_string_ne (by decide +kernel) ip
  have empty : ip.to_string ≠ [] := to_string_ne (by decide +kernel) ip
  unfold client_ip_from_headers first_entry
  cases forwarded_for headers with
  | none => simpa using unknown.symm
  | some forwarded =>
    simp only [Option.map_some,Option.some.injEq]
    by_cases some_client : Text.trim (Text.first_piece ',' forwarded) = []
    · rw [if_neg (not_not_intro some_client),some_client]
      exact iff_of_false unknown.symm empty.symm
    · rw [if_pos some_client]

/-- Handlers and middleware see one address exactly when the first entry of the header is the text of an address, and that of
    the peer unless the peer is trusted. -/
theorem gates_see_one_address_iff (trusted : TrustedProxies) (headers : HeaderMap) (peer : IpAddr) :
    client_ip_from_headers headers trusted = client_ip_from_request (some peer) headers trusted ↔
      ∃ ip, first_entry headers = some ip.to_string ∧ (trusted.contains peer = true ∨ ip = peer) := by
  have judged : client_ip_from_request (some peer) headers trusted = trusted.client_ip headers peer := rfl
  rw [judged,TrustedProxies.client_ip_eq,client_ip_from_headers_eq]
  cases inside : trusted.contains peer with
  | false => simp
  | true =>
    simp only [if_true,true_or,and_true]
    constructor
    · exact fun first => ⟨_,first⟩
    · rintro ⟨ip,first⟩
      rw [List.headD_eq_head?_getD,List.head?_append,forwarded_entries_head first]
      exact first

namespace Sample

/-- One trusted network, and a request that came through a proxy of it. -/
def proxies : TrustedProxies := TrustedProxies.parse "10.0.0.0/8".toList

def proxy_ip : IpAddr := .V4 (BitVec.ofNat 32 0x0a000001)

def through_proxy (forwarded : String) : HeaderMap := [("x-forwarded-for".toList,utf8 forwarded)]

end Sample

/-- Behind a trusted proxy a client puts any address in front of its own. -/
theorem prepended_address_taken :
    Sample.proxies.contains Sample.proxy_ip = true ∧
    Sample.proxies.client_ip (Sample.through_proxy "198.51.100.7, 203.0.113.50") Sample.proxy_ip = "198.51.100.7".toList ∧
    Sample.proxies.client_ip (Sample.through_proxy "203.0.113.50") Sample.proxy_ip = "203.0.113.50".toList ∧
    (Sample.proxies.wanted_client (Sample.through_proxy "198.51.100.7, 203.0.113.50") Sample.proxy_ip).to_string =
      "203.0.113.50".toList := by
  decide +kernel

/-- An untrusted client names its own address to the handlers, and the middleware sees another one. -/
theorem gates_see_two_addresses :
    client_ip_from_headers (Sample.through_proxy "10.0.0.1") ⟨[]⟩ = "10.0.0.1".toList ∧
    client_ip_from_request (some (.V4 (BitVec.ofNat 32 0xc6336407))) (Sample.through_proxy "10.0.0.1") ⟨[]⟩ =
      "198.51.100.7".toList ∧
    client_ip_from_headers [] ⟨[]⟩ = "unknown".toList := by
  decide +kernel

end Maxio
