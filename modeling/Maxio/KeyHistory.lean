import Maxio.KeyFile
import Maxio.RoundTrip

/-!
Histories of the key file. A rotation or a load adds keys and never drops one, so that a data key wrapped once can be
unwrapped by every keyring loaded later; but a file that exists and cannot be read is taken for a file that does not
exist, and overwritten.
-/

namespace Maxio

/-- Every key of the first keyring is in the second, under its id. -/
def KeyringFile.Extends (kr kr' : KeyringFile) : Prop :=
  ∀ entry ∈ kr.keys, ∃ entry' ∈ kr'.keys, entry'.id = entry.id ∧ entry'.key_b64 = entry.key_b64

theorem KeyringFile.Extends.refl (kr : KeyringFile) : kr.Extends kr := fun entry listed => ⟨entry,listed,rfl,rfl⟩

theorem KeyringFile.Extends.trans {a b c : KeyringFile} (first : a.Extends b) (second : b.Extends c) : a.Extends c := by
  intro entry listed
  obtain ⟨entry',listed',id,key⟩ := first entry listed
  obtain ⟨entry'',listed'',id',key'⟩ := second entry' listed'
  exact ⟨entry'',listed'',id'.trans id,key'.trans key⟩

/-- A file that exists is left alone, or replaced by one that was made from it and has all its keys. -/
def KeysKept (before after : KeyFile) : Prop :=
  ∀ content, before = some content → after = before ∨
    ∃ kr kr', content = .keyring kr ∧ after = some (.keyring kr') ∧ kr.Extends kr'

/-- The replacement of the key file goes through. -/
def KeyIo.Replaces (io : KeyIo) : Prop :=
  io.write = none ∧ io.metadata = none ∧ io.set_permissions = none ∧ io.rename = none

/-- The file holds no key but the one just generated. -/
def OnlyFresh (P : Primitives) (fresh : FreshKey) (content : KeyFileContent) : Prop :=
  ∃ kr, content = .keyring kr ∧ kr.Extends ⟨[active_entry P fresh]⟩

section Reading
variable {P : Primitives} {io : KeyIo} {fresh : FreshKey}

theorem replace_key_file_state (io : KeyIo) (kr : KeyringFile) (file : KeyFile) :
    io.Replaces ∧ replace_key_file io kr file = (.ok (),some (.keyring kr)) ∨
      ¬ io.Replaces ∧ ∃ e, replace_key_file io kr file = (.error e,file) := by
  obtain ⟨read,write,metadata,permissions,rename⟩ := io
  cases write with
  | some fault => exact .inr ⟨fun done => by simp [KeyIo.Replaces] at done,_,rfl⟩
  | none =>
    cases metadata with
    | some fault => exact .inr ⟨fun done => by simp [KeyIo.Replaces] at done,_,rfl⟩
    | none =>
      cases permissions with
      | some fault => exact .inr ⟨fun done => by simp [KeyIo.Replaces] at done,_,rfl⟩
      | none =>
        cases rename with
        | some fault => exact .inr ⟨fun done => by simp [KeyIo.Replaces] at done,_,rfl⟩
        | none => exact .inl ⟨⟨rfl,rfl,rfl,rfl⟩,rfl⟩

/-- Reading leaves the file alone; it gives what the file holds, or fails. -/
theorem read_key_file_cases (io : KeyIo) (content : KeyFileContent) :
    (io.read = none ∧ content ≠ .binary) ∧ read_key_file io (some content) = (.ok content,some content) ∨
      ¬ (io.read = none ∧ content ≠ .binary) ∧ ∃ e, read_key_file io (some content) = (.error e,some content) := by
  unfold read_key_file
  cases faulty : io.read with
  | some fault => exact .inr ⟨fun fine => (nomatch fine.1),_,rfl⟩
  | none =>
    cases content with
    | binary => exact .inr ⟨fun fine => fine.2 rfl,_,rfl⟩
    | malformed => exact .inl ⟨⟨rfl,by simp⟩,rfl⟩
    | keyring kr => exact .inl ⟨⟨rfl,by simp⟩,rfl⟩

/-- What a load without a master key does to the file is what its first half does. -/
theorem load_file_state (file : KeyFile) :
    (Keyring.load P io fresh none file).2 = (Keyring.load_or_bootstrap P io fresh file).2 := by
  simp only [Keyring.load,Keyring.load_file,Prog.bind_apply]
  cases executed : Keyring.load_or_bootstrap P io fresh file with
  | mk result file' =>
    cases result with
    | error e => rfl
    | ok kr =>
      dsimp only
      rcases kr.keys.foldl (Keyring.load_entry P) ([],none) with ⟨keys,_ | active_id⟩
      · rfl
      · rfl

/-- A file that is read keeps its keys. -/
theorem load_or_bootstrap_read {content : KeyFileContent} (fine : io.read = none ∧ content ≠ .binary) :
    (Keyring.load_or_bootstrap P io fresh (some content)).2 = some content := by
  rcases read_key_file_cases io content with ⟨_,read⟩ | ⟨failed,_⟩
  · simp only [Keyring.load_or_bootstrap,Prog.bind_apply,Prog.attempt_apply,read]
    rfl
  · exact absurd fine failed

/-- A file that cannot be read is replaced by one new key. -/
theorem load_or_bootstrap_unread {content : KeyFileContent} (failed : ¬ (io.read = none ∧ content ≠ .binary)) :
    (Keyring.load_or_bootstrap P io fresh (some content)).2 =
      (replace_key_file io ⟨[active_entry P fresh]⟩ (some content)).2 := by
  rcases read_key_file_cases io content with ⟨fine,_⟩ | ⟨_,e,read⟩
  · exact absurd fine failed
  · simp only [Keyring.load_or_bootstrap,Prog.bind_apply,Prog.attempt_apply,read]
    split <;> simp_all

theorem rotate_read {content : KeyFileContent} (fine : io.read = none ∧ content ≠ .binary) :
    (rotate P io fresh (some content)).2 = some content ∨
      ∃ kr kr', content = .keyring kr ∧ (rotate P io fresh (some content)).2 = some (.keyring kr') ∧ kr.Extends kr' := by
  rcases read_key_file_cases io content with ⟨_,read⟩ | ⟨failed,_⟩
  · simp only [rotate,Prog.bind_apply,Prog.attempt_apply,read]
    cases content with
    | binary => exact absurd rfl fine.2
    | malformed => exact .inl rfl
    | keyring kr =>
      simp only [parse_keyring,Prog.lift_apply]
      split
      · exact .inl rfl
      · rcases replace_key_file_state io ⟨(kr.keys.map fun entry => { entry with active := false }) ++
          [active_entry P fresh]⟩ (some (.keyring kr)) with ⟨_,replaced⟩ | ⟨_,e,failed⟩
        · rw [Prog.bind_of_ok replaced]
          refine .inr ⟨kr,_,rfl,rfl,fun entry listed => ⟨{ entry with active := false },?_,rfl,rfl⟩⟩
          exact List.mem_append_left _ (List.mem_map_of_mem listed)
        · rw [Prog.bind_of_error failed]
          exact .inl rfl
  · exact absurd fine failed

theorem rotate_unread {content : KeyFileContent} (failed : ¬ (io.read = none ∧ content ≠ .binary)) :
    (rotate P io fresh (some content)).2 = (replace_key_file io ⟨[active_entry P fresh]⟩ (some content)).2 := by
  rcases read_key_file_cases io content with ⟨fine,_⟩ | ⟨_,e,read⟩
  · exact absurd fine failed
  · simp only [rotate,Prog.bind_apply,Prog.attempt_apply,read]
    rcases replace_key_file_state io ⟨[active_entry P fresh]⟩ (some content) with ⟨_,replaced⟩ | ⟨_,e,failed⟩
    · simp [replaced,Prog.bind_apply]
    · simp [failed,Prog.bind_apply]

/-- A file that could not be read and was replaced keeps its keys only if there was none to lose. -/
theorem replaced_keeps_iff (content : KeyFileContent) :
    KeysKept (some content) (replace_key_file io ⟨[active_entry P fresh]⟩ (some content)).2 ↔
      ¬ io.Replaces ∨ OnlyFresh P fresh content := by
  rcases replace_key_file_state io ⟨[active_entry P fresh]⟩ (some content) with ⟨all,replaced⟩ | ⟨some_fail,e,failed⟩
  · rw [replaced]
    constructor
    · intro kept
      right
      rcases kept content rfl with same | ⟨kr,kr',rfl,after,extends'⟩
      · exact ⟨_,(Option.some.inj same).symm,KeyringFile.Extends.refl _⟩
      · cases after
        exact ⟨kr,rfl,extends'⟩
    · rintro (broken | ⟨kr,rfl,extends'⟩)
      · exact absurd all broken
      · intro content here
        cases here
        exact .inr ⟨kr,_,rfl,rfl,extends'⟩
  · rw [failed]
    constructor
    · exact fun _ => .inl some_fail
    · intro _ content' here
      exact .inl rfl

/-- A load without a master key and a rotation keep the keys of an existing file exactly when it is read, or its
    replacement does not go through, or it has no other key than the new one. -/
theorem keys_kept_iff (P : Primitives) (io : KeyIo) (fresh : FreshKey) (content : KeyFileContent) :
    (KeysKept (some content) (Keyring.load P io fresh none (some content)).2 ↔
      (io.read = none ∧ content ≠ .binary) ∨ ¬ io.Replaces ∨ OnlyFresh P fresh content) ∧
    (KeysKept (some content) (rotate P io fresh (some content)).2 ↔
      (io.read = none ∧ content ≠ .binary) ∨ ¬ io.Replaces ∨ OnlyFresh P fresh content) := by
  by_cases fine : io.read = none ∧ content ≠ .binary
  · constructor
    · refine iff_of_true (fun content' here => .inl ?_) (.inl fine)
      rw [load_file_state,load_or_bootstrap_read fine]
    · refine iff_of_true (fun content' here => ?_) (.inl fine)
      cases here
      exact rotate_read fine
  · constructor
    · rw [load_file_state,load_or_bootstrap_unread fine,replaced_keeps_iff]
      exact ⟨.inr,fun holds => holds.resolve_left fine⟩
    · rw [rotate_unread fine,replaced_keeps_iff]
      exact ⟨.inr,fun holds => holds.resolve_left fine⟩

end Reading

namespace Sample

/-- The SHA-256 digests of three master keys. -/
def key_digests : List (Bytes × Bytes) :=
  [(List.replicate 32 7,[0x4b,0xb0,0x6f,0x8e,0x4e,0x3a,0x77,0x15,0xd2,0x01,0xd5,0x73,0xd0,0xaa,0x42,0x37,
      0x62,0xe5,0x5d,0xab,0xd6,0x1a,0x2c,0x02,0x27,0x8f,0xa5,0x6c,0xc6,0xd2,0x94,0xe0]),
    (List.replicate 32 8,[0x25,0x78,0xcc,0xf8,0x64,0x5b,0x2d,0x1d,0xc1,0x0c,0x46,0x5e,0xff,0x84,0x35,0x85,
      0x97,0x0f,0x3a,0x7e,0x22,0x29,0x6a,0x92,0xca,0xd5,0x5d,0x48,0x9a,0x27,0x20,0x72]),
    (List.replicate 32 9,[0x8c,0x0c,0xc1,0x7a,0x04,0x94,0x2c,0xc4,0xf8,0xe0,0xfe,0x0b,0x30,0x26,0x06,0xd3,
      0x10,0x88,0x60,0xc1,0x26,0x42,0x8b,0xa2,0xce,0xeb,0x5f,0x9e,0xd4,0x1c,0x2b,0x05])]

/-- Their base64 texts. -/
def key_texts : List (Bytes × String) :=
  [(List.replicate 32 7,"BwcHBwcHBwcHBwcHBwcHBwcHBwcHBwcHBwcHBwcHBwc="),
    (List.replicate 32 8,"CAgICAgICAgICAgICAgICAgICAgICAgICAgICAgICAg="),
    (List.replicate 32 9,"CQkJCQkJCQkJCQkJCQkJCQkJCQkJCQkJCQkJCQkJCQk=")]

/-- A data key wrapped under the first of them. -/
def wrapped_keys : List (Sealing × Bytes) :=
  [(⟨false,List.replicate 32 7,List.replicate 12 3,utf8 "4bb06f8e4e3a7715",List.replicate 32 1⟩,
    [0x24,0xff,0xa2,0x02,0x5b,0x29,0x5f,0x43,0x7b,0x41,0x42,0x5d,0xea,0x56,0xfe,0x0d,0xec,0x3d,0xe1,0xee,0xb5,0x94,0x95,0x71,
      0x2e,0xdf,0x86,0xb0,0xe2,0xe4,0x41,0xb9,0x88,0x17,0x57,0x67,0x3a,0xe9,0xca,0x7f,0x90,0x43,0x14,0x5d,0x3a,0xac,0xa4,0x29])]

/-- Primitives with the true values of all that a history of these keys computes. -/
def keystore : Primitives := tabled { primitives with sha256 := digest 32 key_digests } wrapped_keys key_texts

theorem keystore_sound : keystore.Sound :=
  tabled_sound primitives_sound.mac ⟨by decide +kernel,by decide +kernel,by decide +kernel⟩
    ⟨by decide +kernel,by decide +kernel⟩

def fresh_key (n : UInt8) : FreshKey := ⟨List.replicate 32 n,"2026-07-01T00:00:00.000Z",by simp⟩

/-- A key file with one key. -/
def one_key : KeyFileContent := .keyring ⟨[active_entry keystore (fresh_key 7)]⟩

/-- The key file cannot be opened. -/
def denied : KeyIo := { KeyIo.sound with read := some .PermissionDenied }

end Sample

/-- A key file that exists but cannot be opened is overwritten by a load and by a rotation. -/
theorem unreadable_keys_lost :
    ¬ KeysKept (some Sample.one_key)
      (Keyring.load Sample.keystore Sample.denied (Sample.fresh_key 9) none (some Sample.one_key)).2 ∧
    ¬ KeysKept (some Sample.one_key) (rotate Sample.keystore Sample.denied (Sample.fresh_key 9) (some Sample.one_key)).2 := by
  have unread : ¬ (Sample.denied.read = none ∧ Sample.one_key ≠ .binary) := by decide
  have lost : ¬ (¬ Sample.denied.Replaces ∨ OnlyFresh Sample.keystore (Sample.fresh_key 9) Sample.one_key) := by
    rintro (broken | ⟨kr,same,extends'⟩)
    · exact broken ⟨rfl,rfl,rfl,rfl⟩
    · cases same
      obtain ⟨entry,listed,id,_⟩ := extends' _ List.mem_cons_self
      rw [List.mem_singleton.mp listed] at id
      exact absurd id (by decide +kernel)
  constructor
  · rwa [load_file_state,load_or_bootstrap_unread unread,replaced_keeps_iff]
  · rwa [rotate_unread unread,replaced_keeps_iff]

/-! ### Histories -/

/-- A call that uses the key file. -/
inductive KeyCall where
  | load (fresh : FreshKey) (master_key_b64 : Option String)
  | rotate (fresh : FreshKey)

namespace KeyCall
variable (P : Primitives)

/-- The file after the call. -/
def after : KeyCall → KeyFile → KeyFile
  | .load fresh master_key_b64,file => (Keyring.load P .sound fresh master_key_b64 file).2
  | .rotate fresh,file => (Maxio.rotate P .sound fresh file).2

/-- The keyring the call returns. -/
def Returns (ring : Keyring) (file : KeyFile) : KeyCall → Prop
  | .load fresh master_key_b64 => (Keyring.load P .sound fresh master_key_b64 file).1 = .ok ring
  | .rotate _ => False

/-- The master keys the call brings in. -/
def keys : KeyCall → List Bytes
  | .load fresh none => [fresh.new_key]
  | .load _ (some master_key_b64) => (P.b64_decode master_key_b64).toList
  | .rotate fresh => [fresh.new_key]

end KeyCall

def key_file_after (P : Primitives) : List KeyCall → KeyFile → KeyFile
  | [],file => file
  | call :: rest,file => key_file_after P rest (call.after P file)

theorem key_file_after_append (P : Primitives) (front back : List KeyCall) (file : KeyFile) :
    key_file_after P (front ++ back) file = key_file_after P back (key_file_after P front file) := by
  induction front generalizing file with
  | nil => rfl
  | cons call rest ih => exact ih _

/-- The second file has all keys of the first. -/
def Grows (file file' : KeyFile) : Prop :=
  ∀ kr, file = some (.keyring kr) → ∃ kr', file' = some (.keyring kr') ∧ kr.Extends kr'

theorem Grows.refl (file : KeyFile) : Grows file file := fun kr here => ⟨kr,here,KeyringFile.Extends.refl kr⟩

theorem Grows.trans {a b c : KeyFile} (first : Grows a b) (second : Grows b c) : Grows a c := by
  intro kr here
  obtain ⟨kr',between,extends'⟩ := first kr here
  obtain ⟨kr'',there,extends''⟩ := second kr' between
  exact ⟨kr'',there,extends'.trans extends''⟩

section Histories
variable {P : Primitives} {used : List Bytes}

/-- An entry spells out one of the keys in use. -/
def Spelled (P : Primitives) (used : List Bytes) (entry : KeyEntryJson) : Prop :=
  ∃ key ∈ used, key.length = 32 ∧ entry.id = key_id_from_bytes P key ∧ entry.key_b64 = P.b64_encode key

/-- One entry is active, and all are spelled out. -/
structure KeyringFile.Proper (P : Primitives) (used : List Bytes) (kr : KeyringFile) : Prop where
  one_active : (kr.keys.filter KeyEntryJson.active).length = 1
  spelled : ∀ entry ∈ kr.keys, Spelled P used entry

/-- There is no file, or it holds a proper keyring. -/
def KeyFile.Proper (P : Primitives) (used : List Bytes) (file : KeyFile) : Prop :=
  file = none ∨ ∃ kr, file = some (.keyring kr) ∧ kr.Proper P used

/-- A keyring in memory has keys in use under their own ids, among them those of the entries. -/
structure Holds (P : Primitives) (used : List Bytes) (entries : List KeyEntryJson) (keys : List (String × Bytes)) :
    Prop where
  own : ∀ known ∈ keys, known.2 ∈ used ∧ known.2.length = 32 ∧ known.1 = key_id_from_bytes P known.2
  has : ∀ entry ∈ entries, ∃ known ∈ keys, known.1 = entry.id

theorem decode_32_encode (sound : P.Sound) {key : Bytes} (length : key.length = 32) :
    decode_32 P (P.b64_encode key) = .ok key := by
  rw [decode_32,sound.base64]
  simp [length]

theorem Spelled.mono {used' : List Bytes} (subset : ∀ key ∈ used, key ∈ used') {entry : KeyEntryJson}
    (spelled : Spelled P used entry) : Spelled P used' entry := by
  obtain ⟨key,listed,rest⟩ := spelled
  exact ⟨key,subset key listed,rest⟩

theorem Holds.load_entry (sound : P.Sound) {seen : List KeyEntryJson} {acc : List (String × Bytes) × Option String}
    {entry : KeyEntryJson} (holds : Holds P used seen acc.1) (spelled : Spelled P used entry) :
    Holds P used (seen ++ [entry]) (Keyring.load_entry P acc entry).1 := by
  obtain ⟨key,listed,length,id,text⟩ := spelled
  rw [Keyring.load_entry,text,decode_32_encode sound length]
  refine ⟨fun known member => ?_,fun entry' member => ?_⟩
  · rcases List.mem_cons.mp member with rfl | old
    · exact ⟨listed,length,id⟩
    · exact holds.own known (List.mem_filter.mp old).1
  · by_cases same : entry'.id = entry.id
    · exact ⟨_,List.mem_cons_self,same.symm⟩
    · rcases List.mem_append.mp member with old | new
      · obtain ⟨known,there,named⟩ := holds.has entry' old
        refine ⟨known,List.mem_cons_of_mem _ (List.mem_filter.mpr ⟨there,?_⟩),named⟩
        simpa [named] using same
      · rw [List.mem_singleton.mp new] at same
        exact absurd rfl same

theorem Holds.merge_entry (sound : P.Sound) {seen : List KeyEntryJson} {keys : List (String × Bytes)}
    {entry : KeyEntryJson} (holds : Holds P used seen keys) (spelled : Spelled P used entry) :
    Holds P used (seen ++ [entry]) (Keyring.merge_entry P keys entry) := by
  obtain ⟨key,listed,length,id,text⟩ := spelled
  rw [Keyring.merge_entry,text,decode_32_encode sound length]
  dsimp only
  split
  next present =>
    obtain ⟨known,there,named⟩ := List.any_eq_true.mp present
    refine ⟨holds.own,fun entry' member => ?_⟩
    rcases List.mem_append.mp member with old | new
    · exact holds.has entry' old
    · rw [List.mem_singleton.mp new]
      exact ⟨known,there,by simpa using named⟩
  next =>
    refine ⟨fun known member => ?_,fun entry' member => ?_⟩
    · rcases List.mem_append.mp member with old | new
      · exact holds.own known old
      · rw [List.mem_singleton.mp new]
        exact ⟨listed,length,id⟩
    · rcases List.mem_append.mp member with old | new
      · obtain ⟨known,there,named⟩ := holds.has entry' old
        exact ⟨known,List.mem_append_left _ there,named⟩
      · rw [List.mem_singleton.mp new]
        exact ⟨_,List.mem_append_right _ (List.mem_singleton_self _),rfl⟩

/-- Both loaders go through the entries one by one. -/
theorem Holds.fold {α : Type} (keys_of : α → List (String × Bytes)) (step : α → KeyEntryJson → α)
    (one : ∀ seen acc entry, Holds P used seen (keys_of acc) → Spelled P used entry →
      Holds P used (seen ++ [entry]) (keys_of (step acc entry)))
    (entries seen : List KeyEntryJson) (acc : α) (start : Holds P used seen (keys_of acc))
    (spelled : ∀ entry ∈ entries, Spelled P used entry) :
    Holds P used (seen ++ entries) (keys_of (entries.foldl step acc)) := by
  induction entries generalizing seen acc with
  | nil => simpa using start
  | cons entry rest ih =>
    have next := ih (seen ++ [entry]) (step acc entry) (one seen acc entry start (spelled entry (by simp)))
      fun other listed => spelled other (by simp [listed])
    rw [List.append_assoc] at next
    exact next

theorem active_entry_spelled {fresh : FreshKey} (listed : fresh.new_key ∈ used) :
    Spelled P used (active_entry P fresh) := ⟨fresh.new_key,listed,fresh.length,rfl,rfl⟩

/-- A file with one new key. -/
theorem bootstrapped_proper {fresh : FreshKey} (listed : fresh.new_key ∈ used) :
    KeyringFile.Proper P used ⟨[active_entry P fresh]⟩ := by
  refine ⟨rfl,fun entry member => ?_⟩
  rw [List.mem_singleton.mp member]
  exact active_entry_spelled listed

/-- A file with its entries demoted and one new key. -/
theorem rotated_proper {kr : KeyringFile} {fresh : FreshKey} (proper : kr.Proper P used) (listed : fresh.new_key ∈ used) :
    KeyringFile.Proper P used ⟨(kr.keys.map fun entry => { entry with active := false }) ++ [active_entry P fresh]⟩ := by
  refine ⟨?_,fun entry member => ?_⟩
  · have none : ((kr.keys.map fun entry => { entry with active := false }).filter KeyEntryJson.active) = [] := by
      rw [List.filter_eq_nil_iff]
      intro entry member
      obtain ⟨old,_,rfl⟩ := List.mem_map.mp member
      simp
    rw [List.filter_append,none]
    rfl
  · rcases List.mem_append.mp member with old | new
    · obtain ⟨before,there,rfl⟩ := List.mem_map.mp old
      exact proper.spelled before there
    · rw [List.mem_singleton.mp new]
      exact active_entry_spelled listed

/-- The entries of a file. -/
def KeyFile.entries : KeyFile → List KeyEntryJson
  | some (.keyring kr) => kr.keys
  | _ => []

theorem Holds.load_file (sound : P.Sound) {kr : KeyringFile} (proper : kr.Proper P used) {keys : List (String × Bytes)}
    {active : Option String} (folded : kr.keys.foldl (Keyring.load_entry P) ([],none) = (keys,active)) :
    Holds P used kr.keys keys := by
  have all := Holds.fold Prod.fst (Keyring.load_entry P)
    (fun seen acc entry holds spelled => holds.load_entry sound spelled) kr.keys [] ([],none)
    ⟨fun _ none => (nomatch none),fun _ none => (nomatch none)⟩ proper.spelled
  rw [folded] at all
  exact all

/-- What a load without a master key returns, and the file it leaves. -/
theorem load_file_holds (sound : P.Sound) {fresh : FreshKey} {kr : KeyringFile} {file : KeyFile}
    (loaded : Keyring.load_or_bootstrap P .sound fresh file = (.ok kr,some (.keyring kr))) (proper : kr.Proper P used)
    {ring : Keyring} (returned : (Keyring.load P .sound fresh none file).1 = .ok ring) : Holds P used kr.keys ring.keys := by
  rw [Keyring.load,Keyring.load_file,Prog.bind_of_ok loaded] at returned
  rcases folded : kr.keys.foldl (Keyring.load_entry P) ([],none) with ⟨keys,_ | active_id⟩
  · rw [folded] at returned
    cases returned
  · rw [folded] at returned
    cases returned
    exact Holds.load_file sound proper folded

/-- A load with a master key leaves the file alone, and returns that key and those of the file. -/
theorem load_master_holds (sound : P.Sound) {file : KeyFile} {text : String} (proper : file.Proper P used)
    (known : ∀ key ∈ (P.b64_decode text).toList, key ∈ used) :
    (Keyring.load_master P .sound text file).2 = file ∧
      ∀ ring, (Keyring.load_master P .sound text file).1 = .ok ring → Holds P used file.entries ring.keys := by
  unfold Keyring.load_master
  cases decoded : P.b64_decode text with
  | none => exact ⟨rfl,fun ring returned => (nomatch returned)⟩
  | some raw =>
    dsimp only
    split
    next => exact ⟨rfl,fun ring returned => (nomatch returned)⟩
    next length =>
      have start : Holds P used [] [(key_id_from_bytes P raw,raw)] := by
        refine ⟨fun entry member => ?_,fun _ none => (nomatch none)⟩
        rw [List.mem_singleton.mp member]
        exact ⟨known raw (by rw [decoded]; simp),by simpa using length,rfl⟩
      rcases proper with rfl | ⟨kr,rfl,proper⟩
      · refine ⟨rfl,fun ring returned => ?_⟩
        cases returned
        exact start
      · refine ⟨rfl,fun ring returned => ?_⟩
        cases returned
        exact Holds.fold id (Keyring.merge_entry P)
          (fun seen acc entry holds spelled => holds.merge_entry sound spelled) kr.keys [] _ start proper.spelled

/-- A rotation of a file that is read and replaced, unless the new id is taken. -/
theorem rotate_keyring {fresh : FreshKey} (kr : KeyringFile) :
    (rotate P .sound fresh (some (.keyring kr))).2 =
      if (kr.keys.map fun entry => { entry with active := false }).any
        (fun entry => entry.id = key_id_from_bytes P fresh.new_key) = true then some (.keyring kr)
      else some (.keyring ⟨(kr.keys.map fun entry => { entry with active := false }) ++ [active_entry P fresh]⟩) := by
  simp only [rotate,Prog.bind_apply,Prog.attempt_apply,read_key_file,KeyIo.sound,parse_keyring,Prog.lift_apply]
  split
  · rfl
  · rfl

/-- What one call does. -/
structure KeyStep (P : Primitives) (used : List Bytes) (call : KeyCall) (file : KeyFile) : Prop where
  proper : (call.after P file).Proper P used
  grows : Grows file (call.after P file)
  holds : ∀ ring, call.Returns P ring file → Holds P used (call.after P file).entries ring.keys

theorem KeyCall.step (sound : P.Sound) (call : KeyCall) {file : KeyFile} (proper : file.Proper P used)
    (known : ∀ key ∈ call.keys P, key ∈ used) : KeyStep P used call file := by
  cases call with
  | load fresh master =>
    cases master with
    | some text =>
      obtain ⟨same,holds⟩ := load_master_holds sound proper known
      have after : (KeyCall.load fresh (some text)).after P file = file := same
      exact ⟨by rw [after]; exact proper,by rw [after]; exact Grows.refl file,by rw [after]; exact holds⟩
    | none =>
      rcases proper with rfl | ⟨kr,rfl,proper⟩
      · have loaded : Keyring.load_or_bootstrap P .sound fresh none =
          (.ok ⟨[active_entry P fresh]⟩,some (.keyring ⟨[active_entry P fresh]⟩)) := rfl
        have made := bootstrapped_proper (P := P) (known fresh.new_key (by simp [KeyCall.keys]))
        have after : (KeyCall.load fresh none).after P none = some (.keyring ⟨[active_entry P fresh]⟩) := by
          rw [KeyCall.after,load_file_state,loaded]
        refine ⟨by rw [after]; exact .inr ⟨_,rfl,made⟩,fun kr here => (nomatch here),fun ring returned => ?_⟩
        rw [after]
        exact load_file_holds sound loaded made returned
      · have loaded : Keyring.load_or_bootstrap P .sound fresh (some (.keyring kr)) = (.ok kr,some (.keyring kr)) := rfl
        have after : (KeyCall.load fresh none).after P (some (.keyring kr)) = some (.keyring kr) := by
          rw [KeyCall.after,load_file_state,loaded]
        refine ⟨by rw [after]; exact .inr ⟨kr,rfl,proper⟩,by rw [after]; exact Grows.refl _,fun ring returned => ?_⟩
        rw [after]
        exact load_file_holds sound loaded proper returned
  | rotate fresh =>
    have listed : fresh.new_key ∈ used := known fresh.new_key (by simp [KeyCall.keys])
    rcases proper with rfl | ⟨kr,rfl,proper⟩
    · exact ⟨.inr ⟨_,rfl,bootstrapped_proper listed⟩,fun kr here => (nomatch here),fun ring returned => returned.elim⟩
    · by_cases present : (kr.keys.map fun entry => { entry with active := false }).any
        (fun entry => entry.id = key_id_from_bytes P fresh.new_key) = true
      · have after : (KeyCall.rotate fresh).after P (some (.keyring kr)) = some (.keyring kr) := by
          rw [KeyCall.after,rotate_keyring,if_pos present]
        exact ⟨by rw [after]; exact .inr ⟨kr,rfl,proper⟩,by rw [after]; exact Grows.refl _,fun ring returned => returned.elim⟩
      · have after : (KeyCall.rotate fresh).after P (some (.keyring kr)) = some (.keyring
            ⟨(kr.keys.map fun entry => { entry with active := false }) ++ [active_entry P fresh]⟩) := by
          rw [KeyCall.after,rotate_keyring,if_neg present]
        refine ⟨by rw [after]; exact .inr ⟨_,rfl,rotated_proper proper listed⟩,?_,fun ring returned => returned.elim⟩
        rw [after]
        intro kr' here
        cases here
        refine ⟨_,rfl,fun entry member => ⟨{ entry with active := false },?_,rfl,rfl⟩⟩
        exact List.mem_append_left _ (List.mem_map_of_mem member)

/-- The file and the keys in use after a history. -/
theorem key_file_after_proper (sound : P.Sound) (calls : List KeyCall) {file : KeyFile} (proper : file.Proper P used)
    (known : ∀ key ∈ calls.flatMap (KeyCall.keys P), key ∈ used) :
    (key_file_after P calls file).Proper P used ∧ Grows file (key_file_after P calls file) := by
  induction calls generalizing file with
  | nil => exact ⟨proper,Grows.refl file⟩
  | cons call rest ih =>
    have step := call.step sound proper fun key listed => known key (by simp [listed])
    obtain ⟨proper',grows'⟩ := ih step.proper fun key listed =>
      known key (by rw [List.flatMap_cons,List.mem_append]; exact .inr listed)
    exact ⟨proper',step.grows.trans grows'⟩

theorem Holds.get_key {entries : List KeyEntryJson} {ring : Keyring} (holds : Holds P used entries ring.keys) {id : String}
    {key : Bytes} (found : ring.get_key id = .ok key) : key ∈ used ∧ id = key_id_from_bytes P key := by
  unfold Keyring.get_key at found
  split at found
  next known at_id =>
    cases found
    obtain ⟨listed,_,named⟩ := holds.own known (List.mem_of_find?_eq_some at_id)
    have same := List.find?_some at_id
    exact ⟨listed,by rw [← named]; exact (of_decide_eq_true same).symm⟩
  next => cases found

theorem Holds.has_key {entries : List KeyEntryJson} {ring : Keyring} (holds : Holds P used entries ring.keys)
    {entry : KeyEntryJson} (listed : entry ∈ entries) : ∃ key, ring.get_key entry.id = .ok key := by
  obtain ⟨known,there,named⟩ := holds.has entry listed
  unfold Keyring.get_key
  cases found : ring.keys.find? fun known => known.1 = entry.id with
  | some known' => exact ⟨known'.2,rfl⟩
  | none =>
    rw [List.find?_eq_none] at found
    exact absurd (decide_eq_true named) (found known there)

/-- Two keyrings that hold keys in use: what one wraps under the id of an entry the other has, the other unwraps. -/
theorem Holds.unwrap (sound : P.Sound)
    (distinct : ∀ k ∈ used, ∀ k' ∈ used, key_id_from_bytes P k = key_id_from_bytes P k' → k = k')
    {entries entries' : List KeyEntryJson} {ring ring' : Keyring} (holds : Holds P used entries ring.keys)
    (holds' : Holds P used entries' ring'.keys) {entry : KeyEntryJson} (listed : entry ∈ entries') {dek nonce wrapped : Bytes}
    (length : dek.length = 32) {w w' : World} (done : ring.wrap_dek P entry.id dek nonce w = (.ok wrapped,w')) :
    ring'.unwrap_dek P entry.id wrapped nonce = .ok dek := by
  simp only [Keyring.wrap_dek,Prog.bind_ok_iff,lift_ok_iff,except_mapError_ok,aes_encrypt_ok_iff] at done
  obtain ⟨key,_,⟨found,_⟩,sealed,_⟩ := done
  obtain ⟨key',found'⟩ := holds'.has_key listed
  obtain ⟨known,named⟩ := holds.get_key found
  obtain ⟨known',named'⟩ := holds'.get_key found'
  obtain rfl : key = key' := distinct key known key' known' (named.symm.trans named')
  have opened := sound.aead _ _ _ _ _ sealed
  unfold Keyring.unwrap_dek
  rw [found']
  simp [bind,Except.bind,opened,length]

end Histories

/-- What a history of loads and rotations guarantees. -/
structure KeysSafe (P : Primitives) (calls : List KeyCall) : Prop where
  /-- Whenever the key file exists, one entry of it is active. -/
  one_active : key_file_after P calls none = none ∨ ∃ kr, key_file_after P calls none = some (.keyring kr) ∧
    (kr.keys.filter KeyEntryJson.active).length = 1
  /-- Its keys only grow. -/
  grows : ∀ front back, calls = front ++ back → Grows (key_file_after P front none) (key_file_after P calls none)
  /-- What a keyring wraps under a key of the file, every keyring loaded later unwraps. -/
  unwraps : ∀ front call middle call' back ring ring' entry dek nonce wrapped w w',
    calls = front ++ call :: (middle ++ call' :: back) → call.Returns P ring (key_file_after P front none) →
    call'.Returns P ring' (key_file_after P (front ++ call :: middle) none) →
    entry ∈ KeyFile.entries (key_file_after P (front ++ call :: (middle ++ [call'])) none) → dek.length = 32 →
    ring.wrap_dek P entry.id dek nonce w = (.ok wrapped,w') → ring'.unwrap_dek P entry.id wrapped nonce = .ok dek

/-- Rotation never orphans data: from no key file, every history of loads and rotations that bring in keys of different
    ids is safe. -/
theorem rotation_keeps_keys {P : Primitives} (sound : P.Sound) (calls : List KeyCall)
    (distinct : ∀ k ∈ calls.flatMap (KeyCall.keys P), ∀ k' ∈ calls.flatMap (KeyCall.keys P),
      key_id_from_bytes P k = key_id_from_bytes P k' → k = k') : KeysSafe P calls := by
  have start : KeyFile.Proper P (calls.flatMap (KeyCall.keys P)) none := .inl rfl
  -- the state reached by any part of the history
  have reached (front back : List KeyCall) (split : calls = front ++ back) :=
    key_file_after_proper sound front start fun key listed => by
      rw [split,List.flatMap_append]
      exact List.mem_append_left _ listed
  refine ⟨?_,fun front back split => ?_,?_⟩
  · rcases (reached calls [] (by simp)).1 with none | ⟨kr,here,proper⟩
    · exact .inl none
    · exact .inr ⟨kr,here,proper.one_active⟩
  · rw [split,key_file_after_append]
    refine (key_file_after_proper sound back (reached front back split).1 fun key listed => ?_).2
    rw [split,List.flatMap_append]
    exact List.mem_append_right _ listed
  · intro front call middle call' back ring ring' entry dek nonce wrapped w w' split returned returned' listed length done
    have brings (front back : List KeyCall) (call : KeyCall) (split : calls = front ++ call :: back) :
        ∀ key ∈ call.keys P, key ∈ calls.flatMap (KeyCall.keys P) := by
      intro key listed
      exact List.mem_flatMap.mpr ⟨call,by rw [split]; simp,listed⟩
    have again : calls = (front ++ call :: middle) ++ call' :: back := by simp [split]
    have step := call.step sound (reached front _ split).1 (brings front _ call split)
    have step' := call'.step sound (reached _ _ again).1 (brings _ back call' again)
    have listed' : entry ∈ KeyFile.entries (call'.after P (key_file_after P (front ++ call :: middle) none)) := by
      rw [show front ++ call :: (middle ++ [call']) = (front ++ call :: middle) ++ [call'] by simp,
        key_file_after_append] at listed
      exact listed
    exact (step.holds ring returned).unwrap sound distinct (step'.holds ring' returned') listed' length done

namespace Sample

/-- A bootstrap, a start with a master key, a rotation, and a start without the master key. -/
def key_calls : List KeyCall :=
  [.load (fresh_key 7) none,.load (fresh_key 9) (some "CAgICAgICAgICAgICAgICAgICAgICAgICAgICAgICAg="),
    .rotate (fresh_key 9),.load (fresh_key 7) none]

end Sample

theorem sample_rotation_keeps_keys :
    (KeyFile.entries (key_file_after Sample.keystore Sample.key_calls none)).length = 2 ∧
      KeysSafe Sample.keystore Sample.key_calls :=
  ⟨by decide +kernel,rotation_keeps_keys Sample.keystore_sound Sample.key_calls (by decide +kernel)⟩

end Maxio
