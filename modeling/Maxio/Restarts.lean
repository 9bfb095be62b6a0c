import Maxio.LockedObjects

/-!
Restarts and rotations in the middle of a run. A server is stopped and started again with the keyring of its key file,
and the file gets new keys, while the objects stay on the disk: whatever was stored under one keyring is read back under
every later one.
-/

set_option linter.unusedSimpArgs false

namespace Maxio
open FileTree (Node Tree)

/-! ### A larger keyring -/

/-- Every key of the first keyring is in the second, under its id. -/
def Keyring.Within (ring ring' : Keyring) : Prop := ∀ id key, ring.get_key id = .ok key → ring'.get_key id = .ok key

/-- What a start may set anew besides the keyring. -/
structure StartConfig where
  quota : QuotaLimits
  metadata_index : Bool

/-- The storage of a server that is started over the same data directory with the same layout. -/
def FilesystemStorage.started (fs : FilesystemStorage) (config : StartConfig) (ring : Keyring) : FilesystemStorage :=
  { fs with keyring := ring, quota := config.quota, metadata_index := config.metadata_index }

/-- What follows a computation may be exchanged for what gives the same result. -/
theorem except_then {E α β : Type} {x : Except E α} {f g : α → Except E β} {b : β}
    (same : ∀ a, f a = .ok b → g a = .ok b) (done : (x >>= f) = .ok b) : (x >>= g) = .ok b := by
  cases x with
  | error e => cases done
  | ok a => exact same a done

section Larger
variable {P : Primitives} {fs : FilesystemStorage} {bucket key : String} {config : StartConfig} {ring : Keyring}
  {w : World} (within : fs.keyring.Within ring)
include within

omit fs within in
theorem Keyring.Within.unwrap {ring ring' : Keyring} (within : ring.Within ring') {id : String} {wrapped nonce dek : Bytes}
    (done : ring.unwrap_dek P id wrapped nonce = .ok dek) : ring'.unwrap_dek P id wrapped nonce = .ok dek := by
  cases found : ring.get_key id with
  | error e =>
    rw [Keyring.unwrap_dek,found] at done
    cases done
  | ok master =>
    rw [Keyring.unwrap_dek,found] at done
    rw [Keyring.unwrap_dek,within id master found]
    exact done

theorem resolve_dek_started {enc : EncryptionMeta} {ck : Option Bytes} {dek : Bytes}
    (done : fs.resolve_dek P enc ck = .ok dek) : (fs.started config ring).resolve_dek P enc ck = .ok dek := by
  unfold FilesystemStorage.resolve_dek at done ⊢
  cases mode : enc.mode with
  | SseC =>
    rw [mode] at done
    exact done
  | SseKms =>
    rw [mode] at done
    exact done
  | SseS3 =>
    rw [mode] at done
    refine except_then (fun id => ?_) done
    refine except_then fun wrapped => except_then fun wrap_nonce => except_then fun pair opened => ?_
    exact except_mapError_ok.mpr (within.unwrap (except_mapError_ok.mp opened))

theorem Described.started {record : ObjectMeta} {cipher : Option FrameCipher} {ck : Option Bytes} {body : Bytes}
    (described : Described P fs bucket key record cipher ck body) :
    Described P (fs.started config ring) bucket key record cipher ck body := by
  refine ⟨described.size,described.plain,fun c given => ?_⟩
  obtain ⟨enc,has,size,verified,rest⟩ := described.encrypted c given
  refine ⟨enc,has,size,?_,rest⟩
  unfold FilesystemStorage.verified_dek at verified ⊢
  cases resolved : fs.resolve_dek P enc ck with
  | error e =>
    rw [resolved] at verified
    cases verified
  | ok dek =>
    rw [resolved] at verified
    rw [resolve_dek_started within resolved]
    exact verified

theorem Written.started {version_id : Option String} {cipher : Option FrameCipher} {ck : Option Bytes} {body : Bytes}
    {coding : Bool} {record : ObjectMeta} (written : Written P fs bucket key version_id cipher ck body coding record w) :
    Written P (fs.started config ring) bucket key version_id cipher ck body coding record w := by
  obtain ⟨⟨shown,described,lies⟩,version,live,spelled⟩ := written
  refine ⟨⟨shown,described.started within,?_⟩,version,live,spelled⟩
  cases lies with
  | flat content named file payload => exact .flat content named file payload
  | chunked data manifest holds payload => exact .chunked data manifest holds payload

theorem Backs.started {coding : Bool} {entry : Option StoredObject} (backs : Backs P fs bucket key coding entry w) :
    Backs P (fs.started config ring) bucket key coding entry w := by
  refine ⟨backs.clear,backs.single,backs.absent,fun e some => ?_⟩
  obtain ⟨record,cipher,written,told,few⟩ := backs.present e some
  exact ⟨record,cipher,written.started within,told,few⟩

/-- A map of objects stays one when the server is started with a larger keyring. -/
theorem Refines.started {keys : Set String} {coding : Bool} {m : ObjectMap}
    (refines : Refines P fs bucket keys coding m w) : Refines P (fs.started config ring) bucket keys coding m w :=
  ⟨refines.unnumbered,refines.layout,fun key member => (refines.backs key member).started within⟩

end Larger

/-! ### Keyrings of one key file -/

section Loading
variable {P : Primitives} {used : List Bytes} {master : Option String} {fresh : FreshKey}

/-- The id of the key that `MAXIO_MASTER_KEY` brings in. -/
def Mastered (P : Primitives) (master : Option String) (id : String) : Prop :=
  ∃ text raw, master = some text ∧ P.b64_decode text = some raw ∧ id = key_id_from_bytes P raw

/-- A keyring that was loaded from the file: it has the keys of the file and the one of `MAXIO_MASTER_KEY`, and no other. -/
structure Loaded (P : Primitives) (used : List Bytes) (master : Option String) (file : KeyFile) (ring : Keyring) : Prop where
  holds : Holds P used file.entries ring.keys
  mastered : ∀ id, Mastered P master id → ∃ key, ring.get_key id = .ok key
  few : ∀ known ∈ ring.keys, (∃ entry ∈ file.entries, entry.id = known.1) ∨ Mastered P master known.1

theorem Grows.entries {file file' : KeyFile} (grows : Grows file file') {entry : KeyEntryJson} (listed : entry ∈ file.entries) :
    ∃ entry' ∈ file'.entries, entry'.id = entry.id := by
  match file,listed with
  | some (.keyring kr),listed =>
    obtain ⟨kr',rfl,extends'⟩ := grows kr rfl
    obtain ⟨entry',there,same,_⟩ := extends' entry listed
    exact ⟨entry',there,same⟩

/-- A keyring that is loaded later has every key of one loaded earlier. -/
theorem Loaded.within (distinct : ∀ k ∈ used, ∀ k' ∈ used, key_id_from_bytes P k = key_id_from_bytes P k' → k = k')
    {file file' : KeyFile} {ring ring' : Keyring} (loaded : Loaded P used master file ring) (grows : Grows file file')
    (loaded' : Loaded P used master file' ring') : ring.Within ring' := by
  intro id key found
  obtain ⟨used_key,named⟩ := loaded.holds.get_key found
  have there : ∃ key', ring'.get_key id = .ok key' := by
    rcases loaded.few (id,key) (get_key_mem found) with ⟨entry,listed,same⟩ | mastered
    · obtain ⟨entry',listed',same'⟩ := grows.entries listed
      have named : entry'.id = id := same'.trans same
      rw [← named]
      exact loaded'.holds.has_key listed'
    · exact loaded'.mastered id mastered
  obtain ⟨key',found'⟩ := there
  obtain ⟨used_key',named'⟩ := loaded'.holds.get_key found'
  obtain rfl := distinct key used_key key' used_key' (named.symm.trans named')
  exact found'

theorem load_entry_listed {acc : List (String × Bytes) × Option String} {entry : KeyEntryJson} {known : String × Bytes}
    (member : known ∈ (Keyring.load_entry P acc entry).1) : known.1 = entry.id ∨ known ∈ acc.1 := by
  unfold Keyring.load_entry at member
  split at member
  next key =>
    rcases List.mem_cons.mp member with rfl | old
    · exact .inl rfl
    · exact .inr (List.mem_filter.mp old).1
  next => exact .inr member

theorem merge_entry_listed {keys : List (String × Bytes)} {entry : KeyEntryJson} {known : String × Bytes}
    (member : known ∈ Keyring.merge_entry P keys entry) : known.1 = entry.id ∨ known ∈ keys := by
  unfold Keyring.merge_entry at member
  split at member
  next key =>
    split at member
    next => exact .inr member
    next =>
      rcases List.mem_append.mp member with old | new
      · exact .inr old
      · rw [List.mem_singleton.mp new]
        exact .inl rfl
  next => exact .inr member

theorem merge_entry_keeps {keys : List (String × Bytes)} {entry : KeyEntryJson} {known : String × Bytes}
    (member : known ∈ keys) : known ∈ Keyring.merge_entry P keys entry := by
  unfold Keyring.merge_entry
  split
  · split
    · exact member
    · exact List.mem_append_left _ member
  · exact member

/-- Both loaders take the keys of the entries and those they start with. -/
theorem fold_listed {α : Type} (keys_of : α → List (String × Bytes)) (step : α → KeyEntryJson → α)
    (one : ∀ acc entry known, known ∈ keys_of (step acc entry) → known.1 = entry.id ∨ known ∈ keys_of acc)
    (entries : List KeyEntryJson) (acc : α) {known : String × Bytes} (member : known ∈ keys_of (entries.foldl step acc)) :
    (∃ entry ∈ entries, entry.id = known.1) ∨ known ∈ keys_of acc := by
  induction entries generalizing acc with
  | nil => exact .inr member
  | cons entry rest ih =>
    rcases ih (step acc entry) member with ⟨other,listed,same⟩ | before
    · exact .inl ⟨other,List.mem_cons_of_mem _ listed,same⟩
    · rcases one acc entry known before with same | start
      · exact .inl ⟨entry,List.mem_cons_self,same.symm⟩
      · exact .inr start

theorem merged_keeps (entries : List KeyEntryJson) {keys : List (String × Bytes)} {known : String × Bytes}
    (member : known ∈ keys) : known ∈ entries.foldl (Keyring.merge_entry P) keys := by
  induction entries generalizing keys with
  | nil => exact member
  | cons entry rest ih => exact ih (merge_entry_keeps member)

theorem get_key_of_mem {ring : Keyring} {known : String × Bytes} (member : known ∈ ring.keys) :
    ∃ key, ring.get_key known.1 = .ok key := by
  unfold Keyring.get_key
  cases found : ring.keys.find? fun other => other.1 = known.1 with
  | some other => exact ⟨other.2,rfl⟩
  | none =>
    rw [List.find?_eq_none] at found
    exact absurd (decide_eq_true rfl) (found known member)

/-- Without `MAXIO_MASTER_KEY` the keys are those of the file. -/
theorem load_file_few {kr : KeyringFile} {file : KeyFile}
    (loaded : Keyring.load_or_bootstrap P .sound fresh file = (.ok kr,some (.keyring kr))) {ring : Keyring}
    (returned : (Keyring.load P .sound fresh none file).1 = .ok ring) :
    ∀ known ∈ ring.keys, ∃ entry ∈ kr.keys, entry.id = known.1 := by
  intro known member
  rw [Keyring.load,Keyring.load_file,Prog.bind_of_ok loaded] at returned
  rcases folded : kr.keys.foldl (Keyring.load_entry P) ([],none) with ⟨keys,_ | active_id⟩
  · rw [folded] at returned
    cases returned
  · rw [folded] at returned
    cases returned
    have all := @fold_listed _ Prod.fst (Keyring.load_entry P) (fun _ _ _ => load_entry_listed) kr.keys ([],none) known
    rw [folded] at all
    rcases all member with listed | start
    · exact listed
    · cases start

/-- With it they are that key and those of the file. -/
theorem load_master_few {file : KeyFile} {text : String} (proper : file.Proper P used) {ring : Keyring}
    (returned : (Keyring.load_master P .sound text file).1 = .ok ring) :
    (∀ id, Mastered P (some text) id → ∃ key, ring.get_key id = .ok key) ∧
      ∀ known ∈ ring.keys, (∃ entry ∈ file.entries, entry.id = known.1) ∨ Mastered P (some text) known.1 := by
  unfold Keyring.load_master at returned
  cases decoded : P.b64_decode text with
  | none =>
    rw [decoded] at returned
    cases returned
  | some raw =>
    rw [decoded] at returned
    dsimp only at returned
    split at returned
    next => cases returned
    next length =>
      have keys : ring.keys = file.entries.foldl (Keyring.merge_entry P) [(key_id_from_bytes P raw,raw)] := by
        rcases proper with rfl | ⟨kr,rfl,_⟩
        · cases returned
          rfl
        · cases returned
          rfl
      refine ⟨fun id mastered => ?_,fun known member => ?_⟩
      · obtain ⟨text',raw',same,decoded',rfl⟩ := mastered
        cases same
        rw [decoded] at decoded'
        cases decoded'
        have kept : (key_id_from_bytes P raw,raw) ∈ ring.keys := by
          rw [keys]
          exact merged_keeps _ (List.mem_singleton_self _)
        exact get_key_of_mem kept
      · rw [keys] at member
        rcases @fold_listed _ id (Keyring.merge_entry P) (fun _ _ _ => merge_entry_listed) file.entries _ known member with
          listed | start
        · exact .inl listed
        · rw [List.mem_singleton.mp start]
          exact .inr ⟨text,raw,rfl,decoded,rfl⟩

/-- What a start reads: a keyring loaded from the file that it leaves. -/
theorem loaded_of_load (sound : P.Sound) {file : KeyFile} (proper : file.Proper P used)
    (known : ∀ key ∈ (KeyCall.load fresh master).keys P, key ∈ used) {ring : Keyring}
    (returned : (Keyring.load P .sound fresh master file).1 = .ok ring) :
    Loaded P used master ((KeyCall.load fresh master).after P file) ring := by
  have holds := ((KeyCall.load fresh master).step sound proper known).holds ring returned
  cases master with
  | some text =>
    obtain ⟨mastered,few⟩ := load_master_few proper returned
    have after : (KeyCall.load fresh (some text)).after P file = file := (load_master_holds sound proper known).1
    rw [after] at holds ⊢
    exact ⟨holds,mastered,few⟩
  | none =>
    refine ⟨holds,fun id mastered => ?_,fun known member => .inl ?_⟩
    · obtain ⟨text,raw,same,_⟩ := mastered
      cases same
    · rcases proper with rfl | ⟨kr,rfl,proper⟩
      · have after : (KeyCall.load fresh none).after P none = some (.keyring ⟨[active_entry P fresh]⟩) := by
          rw [KeyCall.after,load_file_state]
          rfl
        rw [after]
        exact load_file_few rfl returned known member
      · have after : (KeyCall.load fresh none).after P (some (.keyring kr)) = some (.keyring kr) := by
          rw [KeyCall.after,load_file_state]
          rfl
        rw [after]
        exact load_file_few rfl returned known member

end Loading

/-! ### Servers -/

/-- A server: the key file, the storage that it was started with, and the objects of a bucket. -/
structure Server where
  file : KeyFile
  fs : FilesystemStorage
  objects : ObjectMap
  world : World

/-- What happens to a server. The keys that come in are known, and `MAXIO_MASTER_KEY` stays what it is at every start. -/
inductive ServerStep (P : Primitives) (from_str : String → Except String Json) (bucket : String) (keys : Set String)
    (coding : Bool) (used : List Bytes) (master : Option String) : Server → Server → Prop
  /-- The key file is rotated, or loaded by another process. -/
  | keyed {s : Server} (call : KeyCall) (known : ∀ key ∈ call.keys P, key ∈ used) :
      ServerStep P from_str bucket keys coding used master s { s with file := call.after P s.file }
  /-- The server is stopped and started again. -/
  | restarted {s : Server} {w : World} {ring : Keyring} (config : StartConfig) (fresh : FreshKey)
      (known : ∀ key ∈ (KeyCall.load fresh master).keys P, key ∈ used)
      (loaded : (Keyring.load P .sound fresh master s.file).1 = .ok ring)
      (made : Fs.create_dir_all s.fs.buckets_dir s.world = (.ok (),w)) :
      ServerStep P from_str bucket keys coding used master s
        ⟨(KeyCall.load fresh master).after P s.file,s.fs.started config ring,s.objects,w⟩
  | served {s : Server} {m : ObjectMap} {w : World} (step : MapStep P s.fs from_str bucket keys coding s.objects s.world m w) :
      ServerStep P from_str bucket keys coding used master s { s with objects := m, world := w }

abbrev ServerRun (P : Primitives) (from_str : String → Except String Json) (bucket : String) (keys : Set String)
    (coding : Bool) (used : List Bytes) (master : Option String) : Server → Server → Prop :=
  Relation.ReflTransGen (ServerStep P from_str bucket keys coding used master)

/-- The key file is proper and has the keys of the running server, and the map describes what is stored. -/
structure Server.Serves (P : Primitives) (bucket : String) (keys : Set String) (coding : Bool) (used : List Bytes)
    (master : Option String) (s : Server) : Prop where
  proper : s.file.Proper P used
  running : ∃ file, Loaded P used master file s.fs.keyring ∧ Grows file s.file
  refines : Refines P s.fs bucket keys coding s.objects s.world

section Serving
variable {P : Primitives} {from_str : String → Except String Json} {bucket : String} {keys : Set String} {coding : Bool}
  {used : List Bytes} {master : Option String} {fs : FilesystemStorage} {m : ObjectMap} {w w' : World} {s s' : Server}

/-- A start makes at most the directories above those of the buckets. -/
theorem Refines.made (family : Family keys) (named : validate_bucket_name bucket = .ok ())
    (refines : Refines P fs bucket keys coding m w) (draws : Draws)
    (made : Fs.create_dir_all fs.buckets_dir w = (.ok (),w')) : Refines P fs bucket keys coding m w' := by
  have kept : canon fs.buckets_dir = fs.buckets_dir := canon_of_plain fun name member => (fs.plain name member).1
  have frames : Frames (fun _ => False) (fun q => q <+: fs.buckets_dir) (Fs.create_dir_all fs.buckets_dir) := by
    refine Fs.frames_create_dir_all (fun name member => (fs.plain name member).2) fun q above => .inr ?_
    rwa [kept] at above
  have frame := frames w
  rw [made] at frame
  have rigid {rest : OsPath} : ¬ base fs.buckets_dir bucket ++ rest <+: fs.buckets_dir := by
    intro above
    have longer := above.length_le
    simp only [base,List.length_append,List.length_singleton] at longer
    omega
  refine refines.elsewhere family named draws frame (fun _ _ => elsewhere_none) (fun key member n own above => ?_)
    (settings_same frame id rigid)
  rw [home,List.append_assoc] at above
  exact rigid above

theorem Server.Serves.step (sound : P.Sound) (family : Family keys) (named : validate_bucket_name bucket = .ok ())
    (distinct : ∀ k ∈ used, ∀ k' ∈ used, key_id_from_bytes P k = key_id_from_bytes P k' → k = k') (draws : Draws)
    (serves : s.Serves P bucket keys coding used master) (step : ServerStep P from_str bucket keys coding used master s s') :
    s'.Serves P bucket keys coding used master := by
  obtain ⟨file,loaded,grows⟩ := serves.running
  cases step with
  | keyed call known =>
    have next := call.step sound serves.proper known
    exact ⟨next.proper,⟨file,loaded,grows.trans next.grows⟩,serves.refines⟩
  | restarted config fresh known started made =>
    have next := (KeyCall.load fresh master).step sound serves.proper known
    have loaded' := loaded_of_load sound serves.proper known started
    have within := loaded.within distinct (grows.trans next.grows) loaded'
    exact ⟨next.proper,⟨_,loaded',Grows.refl _⟩,(serves.refines.made family named draws made).started within⟩
  | served step => exact ⟨serves.proper,serves.running,serves.refines.step family named sound step⟩

theorem Server.Serves.run (sound : P.Sound) (family : Family keys) (named : validate_bucket_name bucket = .ok ())
    (distinct : ∀ k ∈ used, ∀ k' ∈ used, key_id_from_bytes P k = key_id_from_bytes P k' → k = k') (draws : Draws)
    (serves : s.Serves P bucket keys coding used master)
    (later : ServerRun P from_str bucket keys coding used master s s') : s'.Serves P bucket keys coding used master := by
  induction later with
  | refl => exact serves
  | tail _ step ih => exact ih.step sound family named distinct draws step

/-- Names and times can be drawn. -/
theorem draws_exist : Nonempty Draws := ⟨Sample.draws 0⟩

end Serving

namespace Sample

def first_id : String := "4bb06f8e4e3a7715"

/-- The metadata of `logs/a` under the first master key, before the MAC. -/
def keyed_meta : ObjectMeta := { sealed_meta with
  encryption := sealed_meta.encryption.map fun enc => { enc with
    key_id := some first_id
    wrapped_dek := some "JP+iAlspX0N7QUJd6lb+Dew94e61lJVxLt+GsOLkQbmIF1dnOunKf5BDFF06rKQp" } }

def keyed_json : Bytes := utf8 ("\x7b\"content_type\":\"text/plain\",\"encryption\":\x7b\"algorithm\":\"AES256\"," ++
  "\"chunk_size\":65536,\"key_id\":\"4bb06f8e4e3a7715\",\"mode\":\"sse_s3\",\"nonce_prefix\":\"AgICAgICAgI=\"," ++
  "\"sidecar_mac\":\"\",\"wrap_nonce\":\"AwMDAwMDAwMDAwMD\"," ++
  "\"wrapped_dek\":\"JP+iAlspX0N7QUJd6lb+Dew94e61lJVxLt+GsOLkQbmIF1dnOunKf5BDFF06rKQp\"\x7d," ++
  "\"etag\":\"\\\"900150983cd24fb0d6963f7d28e17f72\\\"\",\"key\":\"a\"," ++
  "\"last_modified\":\"1970-01-01T00:00:00+00:00\",\"size\":3\x7d")

/-- Its HMAC-SHA256 under the data key. -/
def keyed_mac : Bytes :=
  [0x9c,0x10,0x2c,0xa1,0x81,0x4d,0x00,0x5e,0x51,0xed,0xbc,0x20,0x33,0xf3,0xea,0x62,
    0x98,0x3d,0xe7,0xa8,0x04,0x1e,0xf7,0xfa,0xe4,0x96,0xa7,0x63,0xd7,0x30,0x17,0xbe]

/-- Primitives with the true values of what a put under a key of the file computes, and of what a history of keys does. -/
def keyed_vault : Primitives := tabled { vault with
  sha256 := fun data => ((key_digests ++ identities).lookup data).getD (List.replicate 33 0 ++ data)
  hmac_sha256 := fun key data => if key = data_key ∧ data = keyed_json then keyed_mac else resize (key ++ data) 32
  canonical_json := fun record => if record = keyed_meta then keyed_json else utf8 "\x7b\x7d" }
  (wrapped_keys ++ ciphertexts)
  (key_texts ++ base64_texts ++ (wrapped_keys.map fun entry =>
    (entry.2,"JP+iAlspX0N7QUJd6lb+Dew94e61lJVxLt+GsOLkQbmIF1dnOunKf5BDFF06rKQp")))

theorem keyed_vault_sound : keyed_vault.Sound := by
  refine tabled_sound (fun key data => ?_) ⟨by decide +kernel,by decide +kernel,by decide +kernel⟩
    ⟨by decide +kernel,by decide +kernel⟩
  dsimp only
  split
  · rfl
  · exact primitives_sound.mac key data

/-- A start without a master key. -/
def key_load (file : KeyFile) : Except String Keyring × KeyFile := Keyring.load keyed_vault .sound (fresh_key 7) none file

def loaded_ring (file : KeyFile) : Keyring := (key_load file).1.toOption.getD ⟨[],""⟩

theorem loaded_ring_ok {file : KeyFile} (ok : (key_load file).1.isOk = true) : (key_load file).1 = .ok (loaded_ring file) := by
  unfold loaded_ring
  cases loaded : (key_load file).1 with
  | error e =>
    rw [loaded] at ok
    cases ok
  | ok ring => rfl

/-- The server that bootstraps the key file. -/
def first_server : Server where
  file := (key_load none).2
  fs := flat.started ⟨flat.quota,false⟩ (loaded_ring none)
  objects _ := none
  world := world false

def keyed_put : Except StorageError PutResult × World :=
  first_server.fs.put_object keyed_vault (draws 0) "logs" "a" "text/plain" (stream abc abc_filled abc_fits) none
    (some .sse_s3) none first_server.world

def rotated_file : KeyFile := (KeyCall.rotate (fresh_key 9)).after keyed_vault first_server.file

/-- The put and the rotation are done, and the server was started again. -/
def second_server (result : PutResult) : Server where
  file := (key_load rotated_file).2
  fs := first_server.fs.started ⟨flat.quota,false⟩ (loaded_ring rotated_file)
  objects := Function.update (fun _ => none) "a" (some ⟨result,none,abc⟩)
  world := (Fs.create_dir_all first_server.fs.buckets_dir keyed_put.2).2

/-- What the calls come to. -/
theorem key_calls_run : (key_load none).1.isOk = true ∧ (key_load rotated_file).1.isOk = true ∧
    (loaded_ring rotated_file).active_id ≠ (loaded_ring none).active_id := by decide +kernel

theorem keyed_put_runs : keyed_put.1.isOk = true ∧
    (Fs.create_dir_all first_server.fs.buckets_dir keyed_put.2).1.isOk = true := by
  unfold keyed_put keyed_vault keyed_json
  rw [utf8_append,utf8_append,utf8_append,utf8_append,utf8_append]
  repeat rw [utf8_ofList]
  decide +kernel

end Sample

end Maxio
