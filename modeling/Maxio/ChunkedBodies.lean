import Maxio.Addresses
import Maxio.Bodies
import Maxio.Escapes
import Maxio.Ranges

/-!
The chunks of a streaming body, as the format has them and as the loop reads them. A body that the loop reads to its end is
laid out in chunks in one way only, so that it is read rightly just when that layout is the one of the format.
-/

namespace Maxio

/-! ### Layouts -/

/-- A chunk as it stands in a body: the line in front of the data with its end, the data, and what is behind it. -/
structure ChunkText where
  line : Bytes
  data : Bytes
  delimiter : Bytes

def ChunkText.bytes (c : ChunkText) : Bytes := c.line ++ (c.data ++ c.delimiter)

/-- Chunks with data, and what the body ends with. -/
structure BodyText where
  chunks : List ChunkText
  stop : Bytes

namespace BodyText

def bytes (b : BodyText) : Bytes := b.chunks.flatMap ChunkText.bytes ++ b.stop
def data (b : BodyText) : Bytes := b.chunks.flatMap ChunkText.data

end BodyText

def CRLF : Bytes := [13,10]

/-- Nothing, or a semicolon and a text in one line. -/
def Extensions (t : Text) : Prop := t = [] ∨ ∃ rest, t = ';' :: rest ∧ '\r' ∉ rest ∧ '\n' ∉ rest

/-- `hex-size[;extensions] CRLF` -/
def SizeLine (line : Bytes) (size : Nat) : Prop := ∃ (digits extensions : Text) (ds : List Nat),
  line = Text.bytes (digits ++ extensions) ++ CRLF ∧ digits ≠ [] ∧ Spells 16 digits ds ∧
    ds.foldl (fun n d => n * 16 + d) 0 = size ∧ Extensions extensions

def ChunkText.WellFormed (c : ChunkText) : Prop := SizeLine c.line c.data.length ∧ 0 < c.data.length ∧ c.delimiter = CRLF

/-- The chunks end with one of size zero, and so does the body. -/
def BodyText.WellFormed (b : BodyText) : Prop :=
  (∀ c ∈ b.chunks, c.WellFormed) ∧ ∃ line, SizeLine line 0 ∧ b.stop = line ++ CRLF

/-- The body is a sequence of chunks that a chunk of size zero ends. -/
def CompleteStream (body data : Bytes) : Prop := ∃ b : BodyText, b.bytes = body ∧ b.data = data ∧ b.WellFormed

/-! ### Lines -/

/-- Bytes up to and with the first line break. -/
def WholeLine (line : Bytes) : Prop := ∃ front, 10 ∉ front ∧ line = front ++ [10]

/-- The loop makes this size of a line. -/
def ReadsAs (line : Bytes) (size : Nat) : Prop := ∃ text : Text, line = text.bytes ∧ chunk_size text = some size

theorem from_utf8_eq_some_iff {data : Bytes} {t : Text} : from_utf8 data = some t ↔ data = t.bytes := by
  rw [from_utf8]
  constructor
  · intro read
    split at read
    next same => cases read; exact same.symm
    next => cases read
  · rintro rfl
    rw [lossy_bytes,if_pos rfl]

theorem read_line_whole {line : Bytes} (whole : WholeLine line) {text : Text} (spelled : line = text.bytes) (rest : Bytes)
    (failure : Option IoError) : read_line (line ++ rest) failure = .ok (text,rest) := by
  obtain ⟨front,inside,ends⟩ := whole
  have before : ∀ b ∈ front, decide (b ≠ 10) = true := fun b member => decide_eq_true fun same => inside (same ▸ member)
  have taken : (line ++ rest).takeWhile (fun b => b ≠ 10) = front := by
    rw [ends,List.append_assoc,List.takeWhile_append_of_pos before]
    simp
  have left : (line ++ rest).dropWhile (fun b => b ≠ 10) = 10 :: rest := by
    rw [ends,List.append_assoc,List.dropWhile_append_of_pos before]
    simp
  simp only [read_line,taken,left,Except.bind]
  rw [← ends,from_utf8_eq_some_iff.mpr spelled]

/-- What is not a line yet is read as one at the end. -/
theorem read_line_cut {line : Bytes} (inside : 10 ∉ line) {text : Text} (spelled : line = text.bytes) :
    read_line line none = .ok (text,[]) := by
  have before : ∀ b ∈ line, decide (b ≠ 10) = true := fun b member => decide_eq_true fun same => inside (same ▸ member)
  have taken : line.takeWhile (fun b => b ≠ 10) = line := List.takeWhile_eq_self_iff.mpr before
  have left : line.dropWhile (fun b => b ≠ 10) = [] := List.dropWhile_eq_nil_iff.mpr before
  simp only [read_line,taken,left,Except.bind,Option.isSome_none,Bool.false_eq_true,if_false]
  rw [from_utf8_eq_some_iff.mpr spelled]

/-- The lines that are read. -/
theorem read_line_cases {data rest : Bytes} {failure : Option IoError} {text : Text}
    (done : read_line data failure = .ok (text,rest)) :
    (WholeLine text.bytes ∧ data = text.bytes ++ rest) ∨
      (10 ∉ text.bytes ∧ data = text.bytes ∧ rest = [] ∧ failure = none) := by
  have split := List.takeWhile_append_dropWhile (p := fun b : UInt8 => decide (b ≠ 10)) (l := data)
  have inside : 10 ∉ data.takeWhile (fun b => b ≠ 10) := fun member => by simpa using List.mem_takeWhile_imp member
  unfold read_line at done
  generalize data.takeWhile (fun b => b ≠ 10) = line at split inside done
  cases left : data.dropWhile (fun b => b ≠ 10) with
  | cons b more =>
    have stop : b = 10 := by
      have head := List.head?_dropWhile_not (fun b : UInt8 => decide (b ≠ 10)) data
      rw [left] at head
      simpa using head
    rw [left] at split done
    subst stop
    simp only [Except.bind] at done
    cases decoded : from_utf8 (line ++ [10]) with
    | none => rw [decoded] at done; cases done
    | some t =>
      rw [decoded] at done
      cases done
      have spelled := from_utf8_eq_some_iff.mp decoded
      refine .inl ⟨⟨line,inside,spelled.symm⟩,?_⟩
      rw [← spelled,← split,List.append_assoc]
      rfl
  | nil =>
    rw [left,List.append_nil] at split
    rw [left] at done
    subst split
    cases failure with
    | some e => simp [Except.bind] at done
    | none =>
      simp only [Except.bind,Option.isSome_none,Bool.false_eq_true,if_false] at done
      cases decoded : from_utf8 line with
      | none => rw [decoded] at done; cases done
      | some t =>
        rw [decoded] at done
        cases done
        have spelled := from_utf8_eq_some_iff.mp decoded
        rw [← spelled]
        exact .inr ⟨inside,rfl,rfl,rfl⟩

/-! ### What the loop reads -/

/-- The chunk is read whatever is behind it. -/
structure ChunkText.Readable (c : ChunkText) : Prop where
  line : WholeLine c.line
  size : ReadsAs c.line c.data.length
  nonempty : 0 < c.data.length
  small : c.data.length < 2 ^ 63
  delimiter : c.delimiter.length = 2

/-- What the loop ends with, and the data in it: nothing at all, a line of size zero and anything behind it, or data with
    less than two bytes behind it. -/
inductive Stop (failing : Bool) : Bytes → Bytes → Prop
  | nothing (intact : failing = false) : Stop failing [] []
  | zero {line : Bytes} (whole : WholeLine line) (size : ReadsAs line 0) (after : Bytes) : Stop failing (line ++ after) []
  | zero_cut {line : Bytes} (intact : failing = false) (inside : 10 ∉ line) (some_byte : line ≠ []) (size : ReadsAs line 0) :
      Stop failing line []
  | cut {line data delimiter : Bytes} (whole : WholeLine line) (size : ReadsAs line data.length) (nonempty : 0 < data.length)
      (small : data.length < 2 ^ 63) (short : delimiter.length < 2) : Stop failing (line ++ (data ++ delimiter)) data

/-- The loop reads the body to its end. -/
def BodyText.Readable (failing : Bool) (b : BodyText) : Prop :=
  (∀ c ∈ b.chunks, c.Readable) ∧ ∃ data, Stop failing b.stop data

theorem WholeLine.nonempty {line : Bytes} (whole : WholeLine line) : line ≠ [] := by
  obtain ⟨front,-,rfl⟩ := whole
  simp

/-- One turn of the loop over a chunk of which the data is there. -/
theorem decode_turn {line data after : Bytes} (whole : WholeLine line) (size : ReadsAs line data.length)
    (nonempty : 0 < data.length) (small : data.length < 2 ^ 63) (turns : Nat) (failure : Option IoError) (decoded : Bytes) :
    decode_chunks (turns + 1) (line ++ (data ++ after)) failure decoded =
      decode_chunks turns (after.drop 2) (if after.length < 2 then none else failure) (decoded ++ data) := by
  obtain ⟨text,spelled,size⟩ := size
  have some_char : text ≠ [] := by
    rintro rfl
    exact whole.nonempty spelled
  obtain ⟨n,positive⟩ := Nat.exists_eq_succ_of_ne_zero (Nat.pos_iff_ne_zero.mp nonempty)
  rw [decode_chunks,read_line_whole whole spelled]
  cases text with
  | nil => exact absurd rfl some_char
  | cons c rest =>
    dsimp only
    rw [size,positive]
    simp only [Nat.succ_eq_add_one]
    rw [← Nat.succ_eq_add_one,← positive,if_neg (by omega),if_neg (by rw [List.length_append]; omega),List.drop_left,List.take_left]

theorem decode_stop {failing : Bool} {stop data : Bytes} (stops : Stop failing stop data) {failure : Option IoError}
    (same : failure.isSome = failing) {turns : Nat} (enough : stop.length < turns) (decoded : Bytes) :
    decode_chunks turns stop failure decoded = some (.ok (decoded ++ data)) := by
  obtain ⟨turns,rfl⟩ := Nat.exists_eq_add_of_lt (Nat.zero_lt_of_lt enough)
  rw [Nat.zero_add] at *
  have unfailing (intact : failing = false) : failure = none := by
    rw [intact] at same
    simpa using same
  have ended (turns : Nat) (decoded : Bytes) : decode_chunks (turns + 1) [] none decoded = some (.ok decoded) := by
    have read : read_line [] none = .ok ([],[]) := by rfl
    rw [decode_chunks,read]
  have zero {line : Text} {rest : Bytes} (some_char : line ≠ []) {whole : Bytes} (read : read_line whole failure = .ok (line,rest))
      (size : chunk_size line = some 0) : decode_chunks (turns + 1) whole failure decoded = some (.ok decoded) := by
    rw [decode_chunks,read]
    cases line with
    | nil => exact absurd rfl some_char
    | cons c more => simp only [size]
  cases stops with
  | nothing intact =>
    rw [unfailing intact,List.append_nil]
    exact ended turns decoded
  | @zero line whole size after =>
    obtain ⟨text,spelled,size⟩ := size
    rw [List.append_nil]
    refine zero ?_ (read_line_whole whole spelled after failure) size
    rintro rfl
    exact whole.nonempty spelled
  | zero_cut intact inside some_byte size =>
    obtain ⟨text,spelled,size⟩ := size
    rw [List.append_nil]
    have read := read_line_cut inside spelled
    rw [← unfailing intact] at read
    refine zero ?_ read size
    rintro rfl
    exact some_byte spelled
  | @cut line data delimiter whole size nonempty small short =>
    rw [decode_turn whole size nonempty small,if_pos short,List.drop_eq_nil_of_le (by omega)]
    simp only [List.length_append] at enough
    obtain ⟨more,rfl⟩ := Nat.exists_eq_add_of_lt (show 0 < turns by omega)
    rw [Nat.zero_add]
    exact ended more _

theorem decode_readable {failing : Bool} {chunks : List ChunkText} (readable : ∀ c ∈ chunks, c.Readable) {stop data : Bytes}
    (stops : Stop failing stop data) {failure : Option IoError} (same : failure.isSome = failing) {turns : Nat}
    (enough : (BodyText.mk chunks stop).bytes.length < turns) (decoded : Bytes) :
    decode_chunks turns (BodyText.mk chunks stop).bytes failure decoded =
      some (.ok (decoded ++ (chunks.flatMap ChunkText.data ++ data))) := by
  induction chunks generalizing turns decoded with
  | nil => exact decode_stop stops same enough decoded
  | cons c rest ih =>
    have here := readable c List.mem_cons_self
    have split : (BodyText.mk (c :: rest) stop).bytes = c.line ++ (c.data ++ (c.delimiter ++ (BodyText.mk rest stop).bytes)) := by
      simp [BodyText.bytes,ChunkText.bytes]
    rw [split] at enough ⊢
    simp only [List.length_append] at enough
    have delimiter := here.delimiter
    obtain ⟨turns,rfl⟩ := Nat.exists_eq_add_of_lt (Nat.zero_lt_of_lt enough)
    rw [Nat.zero_add] at *
    rw [decode_turn here.line here.size here.nonempty here.small,if_neg (by rw [List.length_append]; omega),
      List.drop_left' delimiter,ih (fun other listed => readable other (List.mem_cons_of_mem c listed)) (by omega)]
    simp

/-- Only what is laid out so is read to the end. -/
theorem readable_of_decoded {turns : Nat} {body : Bytes} {failure : Option IoError} {decoded all : Bytes}
    (enough : body.length < turns) (done : decode_chunks turns body failure decoded = some (.ok all)) :
    ∃ b : BodyText, b.bytes = body ∧ b.Readable failure.isSome := by
  induction turns generalizing body failure decoded with
  | zero => exact absurd enough (Nat.not_lt_zero _)
  | succ turns ih =>
    rw [decode_chunks] at done
    cases read : read_line body failure with
    | error e => rw [read] at done; cases done
    | ok pair =>
      obtain ⟨text,rest⟩ := pair
      rw [read] at done
      have lines := read_line_cases read
      cases text with
      | nil =>
        obtain ⟨whole,-⟩ | ⟨-,empty,-,intact⟩ := lines
        · exact absurd rfl whole.nonempty
        · refine ⟨⟨[],[]⟩,empty.symm,nofun,[],?_⟩
          rw [intact]
          exact .nothing rfl
      | cons c more =>
        simp only at done
        cases size : chunk_size (c :: more) with
        | none => rw [size] at done; cases done
        | some n =>
          rw [size] at done
          have reads : ReadsAs (Text.bytes (c :: more)) n := ⟨c :: more,rfl,size⟩
          cases n with
          | zero =>
            obtain ⟨whole,split⟩ | ⟨inside,split,-,intact⟩ := lines
            · refine ⟨⟨[],body⟩,rfl,nofun,[],?_⟩
              rw [split]
              exact .zero whole reads rest
            · refine ⟨⟨[],body⟩,rfl,nofun,[],?_⟩
              rw [split,intact]
              refine .zero_cut rfl inside ?_ reads
              rw [Ne,bytes_eq_nil]
              nofun
          | succ n =>
            simp only at done
            split at done
            next => cases done
            next small =>
              split at done
              next => cases done
              next long =>
                obtain ⟨whole,split⟩ | ⟨-,-,none,-⟩ := lines
                · have taken : (rest.take (n + 1)).length = n + 1 := by
                    rw [List.length_take]
                    omega
                  rw [← taken] at reads
                  have positive : 0 < (rest.take (n + 1)).length := by omega
                  have bounded : (rest.take (n + 1)).length < 2 ^ 63 := by omega
                  have lengths := congrArg List.length split
                  have some_line := List.length_pos_of_ne_nil whole.nonempty
                  rw [List.length_append] at lengths
                  by_cases short : (rest.drop (n + 1)).length < 2
                  · refine ⟨⟨[],body⟩,rfl,nofun,rest.take (n + 1),?_⟩
                    have parts : body = Text.bytes (c :: more) ++ (rest.take (n + 1) ++ rest.drop (n + 1)) := by
                      rw [List.take_append_drop,split]
                    rw [parts]
                    exact .cut whole reads positive bounded short
                  · rw [if_neg short] at done
                    obtain ⟨b,same,chunks,stop⟩ := ih (by simp only [List.length_drop]; omega) done
                    refine ⟨⟨⟨Text.bytes (c :: more),rest.take (n + 1),(rest.drop (n + 1)).take 2⟩ :: b.chunks,b.stop⟩,?_,?_,stop⟩
                    · have parts : body = Text.bytes (c :: more) ++ (rest.take (n + 1) ++ ((rest.drop (n + 1)).take 2 ++ b.bytes)) := by
                        rw [same,List.take_append_drop,List.take_append_drop,split]
                      rw [parts]
                      simp [BodyText.bytes,ChunkText.bytes]
                    · rw [List.forall_mem_cons]
                      refine ⟨⟨whole,reads,positive,bounded,?_⟩,chunks⟩
                      rw [List.length_take]
                      omega
                · rw [none] at long
                  exact absurd (Nat.succ_pos n) long

/-! ### One layout -/

theorem WholeLine.unique {line line' rest rest' : Bytes} (whole : WholeLine line) (whole' : WholeLine line')
    (same : line ++ rest = line' ++ rest') : line = line' ∧ rest = rest' := by
  have front_of {front : Bytes} (inside : 10 ∉ front) (rest : Bytes) : (front ++ [10] ++ rest).takeWhile (fun b => b ≠ 10) = front := by
    have before : ∀ b ∈ front, decide (b ≠ 10) = true := fun b member => decide_eq_true fun same => inside (same ▸ member)
    rw [List.append_assoc,List.takeWhile_append_of_pos before]
    simp
  obtain ⟨front,inside,rfl⟩ := whole
  obtain ⟨front',inside',rfl⟩ := whole'
  have fronts : front = front' := by rw [← front_of inside rest,same,front_of inside' rest']
  subst fronts
  exact ⟨rfl,List.append_cancel_left same⟩

theorem ReadsAs.unique {line : Bytes} {m n : Nat} (first : ReadsAs line m) (second : ReadsAs line n) : m = n := by
  obtain ⟨text,spelled,size⟩ := first
  obtain ⟨text',spelled',size'⟩ := second
  have texts : text = text' := by rw [← lossy_bytes text,← spelled,spelled',lossy_bytes]
  rw [texts,size'] at size
  exact (Option.some.inj size).symm

theorem ChunkText.Readable.unique {c c' : ChunkText} (readable : c.Readable) (readable' : c'.Readable) {rest rest' : Bytes}
    (same : c.bytes ++ rest = c'.bytes ++ rest') : c = c' ∧ rest = rest' := by
  rw [ChunkText.bytes,ChunkText.bytes,List.append_assoc,List.append_assoc,List.append_assoc,List.append_assoc] at same
  obtain ⟨lines,later⟩ := readable.line.unique readable'.line same
  have size := readable.size
  rw [lines] at size
  obtain ⟨data,behind⟩ := List.append_inj later (size.unique readable'.size)
  obtain ⟨delimiters,rests⟩ := List.append_inj behind (readable.delimiter.trans readable'.delimiter.symm)
  cases c
  cases c'
  simp only at lines data delimiters
  subst lines data delimiters
  exact ⟨rfl,rests⟩

/-- No end begins with a whole chunk. -/
theorem ChunkText.Readable.not_stop {c : ChunkText} (readable : c.Readable) {failing : Bool} {rest stop data : Bytes}
    (stops : Stop failing stop data) : c.bytes ++ rest ≠ stop := by
  intro same
  rw [ChunkText.bytes,List.append_assoc,List.append_assoc] at same
  have nonempty := readable.nonempty
  cases stops with
  | nothing intact => exact readable.line.nonempty (List.append_eq_nil_iff.mp same).1
  | zero whole size after =>
    obtain ⟨rfl,-⟩ := readable.line.unique whole same
    have zero := readable.size.unique size
    omega
  | zero_cut intact inside some_byte size =>
    obtain ⟨front,-,ends⟩ := readable.line
    rw [← same,ends] at inside
    simp at inside
  | cut whole size some_data small short =>
    obtain ⟨rfl,later⟩ := readable.line.unique whole same
    obtain ⟨-,behind⟩ := List.append_inj later (readable.size.unique size)
    have lengths := congrArg List.length behind
    rw [List.length_append,readable.delimiter] at lengths
    omega

/-- A body that is read to its end is laid out in one way. -/
theorem BodyText.Readable.unique {failing : Bool} {b b' : BodyText} (readable : b.Readable failing)
    (readable' : b'.Readable failing) (same : b.bytes = b'.bytes) : b = b' := by
  obtain ⟨chunks,stop⟩ := b
  obtain ⟨chunks',stop'⟩ := b'
  obtain ⟨each,data,stops⟩ := readable
  obtain ⟨each',data',stops'⟩ := readable'
  simp only at each each' stops stops'
  induction chunks generalizing chunks' with
  | nil =>
    cases chunks' with
    | nil => rw [show stop = stop' from same]
    | cons c' rest' =>
      have readable := each' c' List.mem_cons_self
      rw [BodyText.bytes,BodyText.bytes,List.flatMap_cons,List.append_assoc] at same
      exact absurd same.symm (readable.not_stop stops)
  | cons c rest ih =>
    have readable := each c List.mem_cons_self
    cases chunks' with
    | nil =>
      rw [BodyText.bytes,BodyText.bytes,List.flatMap_cons,List.append_assoc] at same
      exact absurd same (readable.not_stop stops')
    | cons c' rest' =>
      rw [BodyText.bytes,BodyText.bytes,List.flatMap_cons,List.append_assoc,List.flatMap_cons,List.append_assoc] at same
      obtain ⟨rfl,later⟩ := readable.unique (each' c' List.mem_cons_self) same
      have rests := ih rest' later (fun other listed => each other (List.mem_cons_of_mem c listed))
        fun other listed => each' other (List.mem_cons_of_mem c listed)
      cases rests
      rfl

/-! ### Layouts of the format -/

theorem hex_not_white {c : Char} {d : Nat} (digit : to_digit 16 c = some d) :
    white_space c = false ∧ c ≠ '\r' ∧ c ≠ '\n' ∧ c ≠ ';' ∧ c ≠ '+' := by
  have bounds : 48 ≤ c.toNat ∧ c.toNat ≤ 57 ∨ 65 ≤ c.toNat ∧ c.toNat ≤ 122 := by
    unfold to_digit at digit
    rw [Option.filter_eq_some_iff] at digit
    have value := digit.1
    split_ifs at value with number lower upper
    · exact .inl number
    · exact .inr ⟨le_trans (by decide) (show 97 ≤ c.toNat from lower.1),lower.2⟩
    · exact .inr ⟨upper.1,le_trans (show c.toNat ≤ 90 from upper.2) (by decide)⟩
  refine ⟨?_,?_,?_,?_,?_⟩
  · unfold white_space
    simp only [Bool.or_eq_false_iff,Bool.and_eq_false_iff,decide_eq_false_iff_not]
    omega
  all_goals
    rintro rfl
    revert bounds
    decide

theorem chunk_size_written {number extensions : Text} {ds : List Nat} (some_digit : number ≠ []) (spells : Spells 16 number ds)
    (follows : Extensions extensions) :
    chunk_size (number ++ extensions ++ ['\r','\n']) =
      if ds.foldl (fun n d => n * 16 + d) 0 < 2 ^ 64 then some (ds.foldl (fun n d => n * 16 + d) 0) else none := by
  have hex : ∀ c ∈ number, white_space c = false ∧ c ≠ '\r' ∧ c ≠ '\n' ∧ c ≠ ';' ∧ c ≠ '+' := by
    intro c member
    obtain ⟨d,digit⟩ := spells.digit c member
    exact hex_not_white digit
  have inside : ∀ c ∈ number ++ extensions, ¬ (c = '\r' ∨ c = '\n') := by
    intro c member
    obtain front | back := List.mem_append.mp member
    · exact not_or.mpr ⟨(hex c front).2.1,(hex c front).2.2.1⟩
    · obtain rfl | ⟨rest,rfl,cr,lf⟩ := follows
      · cases back
      · obtain rfl | later := List.mem_cons.mp back
        · decide
        · exact not_or.mpr ⟨fun same => cr (same ▸ later),fun same => lf (same ▸ later)⟩
  have trimmed : ((number ++ extensions ++ ['\r','\n']).reverse.dropWhile fun c => c = '\r' ∨ c = '\n').reverse =
      number ++ extensions := by
    have kept : (number ++ extensions).reverse.dropWhile (fun c => c = '\r' ∨ c = '\n') = (number ++ extensions).reverse := by
      cases turned : (number ++ extensions).reverse with
      | nil => rfl
      | cons c rest =>
        have member : c ∈ number ++ extensions := List.mem_reverse.mp (turned ▸ List.mem_cons_self)
        exact List.dropWhile_cons_of_neg (by simpa using inside c member)
    rw [List.reverse_append]
    change (((number ++ extensions).reverse.dropWhile fun c => c = '\r' ∨ c = '\n')).reverse = _
    rw [kept,List.reverse_reverse]
  have piece : Text.first_piece ';' (number ++ extensions) = number := by
    have before : ∀ c ∈ number, decide (c ≠ ';') = true := fun c member => decide_eq_true (hex c member).2.2.2.1
    rw [Text.first_piece]
    obtain rfl | ⟨rest,rfl,-⟩ := follows
    · rw [List.append_nil,List.takeWhile_eq_self_iff.mpr before]
    · rw [List.takeWhile_append_of_pos before]
      simp
  have found : digits 16 number = (ds,[]) := by
    have read := digits_append spells (t := []) (by simp [Stops])
    rwa [List.append_nil] at read
  have some_value : ds ≠ [] := by
    rintro rfl
    exact some_digit (List.length_eq_zero_iff.mp spells.length_eq)
  unfold chunk_size
  simp only [trimmed,piece]
  rw [str_trim_of_dark fun c member => (hex c member).1]
  unfold from_str_radix_16
  split
  next rest =>
    exact absurd rfl (hex '+' List.mem_cons_self).2.2.2.2
  next =>
    simp only [found,List.isEmpty_iff,some_value,false_or,not_true_eq_false]
    split_ifs <;> first | rfl | omega

/-- A line of the format is a line, and read with its size. -/
theorem SizeLine.reads {line : Bytes} {size : Nat} (spelled : SizeLine line size) :
    WholeLine line ∧ ∃ text : Text, line = text.bytes ∧ text ≠ [] ∧ chunk_size text = if size < 2 ^ 64 then some size else none := by
  obtain ⟨number,extensions,ds,rfl,some_digit,spells,rfl,follows⟩ := spelled
  have broken : Text.bytes (number ++ extensions) ++ CRLF = Text.bytes (number ++ extensions ++ ['\r','\n']) := by
    rw [bytes_append (number ++ extensions)]
    rfl
  refine ⟨⟨Text.bytes (number ++ extensions) ++ [13],?_,?_⟩,_,broken,by simp,chunk_size_written some_digit spells follows⟩
  · rw [List.mem_append,not_or]
    refine ⟨fun member => ?_,by decide⟩
    have lf := (mem_bytes_iff (c := '\n') (by decide) (by decide) (number ++ extensions)).mp member
    obtain front | back := List.mem_append.mp lf
    · obtain ⟨d,digit⟩ := spells.digit '\n' front
      exact (hex_not_white digit).2.2.1 rfl
    · obtain rfl | ⟨rest,rfl,-,outside⟩ := follows
      · cases back
      · obtain same | later := List.mem_cons.mp back
        · cases same
        · exact outside later
  · rw [CRLF,List.append_assoc]
    rfl

theorem SizeLine.reads_small {line : Bytes} {size : Nat} (spelled : SizeLine line size) (small : size < 2 ^ 63) :
    WholeLine line ∧ ReadsAs line size := by
  obtain ⟨whole,text,same,-,read⟩ := spelled.reads
  rw [if_pos (by omega)] at read
  exact ⟨whole,text,same,read⟩

theorem ChunkText.WellFormed.readable {c : ChunkText} (formed : c.WellFormed) (small : c.data.length < 2 ^ 63) : c.Readable := by
  obtain ⟨spelled,nonempty,delimiter⟩ := formed
  obtain ⟨whole,reads⟩ := spelled.reads_small small
  exact ⟨whole,reads,nonempty,small,by rw [delimiter]; rfl⟩

theorem BodyText.WellFormed.stops {b : BodyText} (formed : b.WellFormed) (failing : Bool) : Stop failing b.stop [] := by
  obtain ⟨-,line,spelled,stop⟩ := formed
  obtain ⟨whole,reads⟩ := spelled.reads_small (by decide)
  rw [stop]
  exact .zero whole reads CRLF

theorem BodyText.WellFormed.readable {b : BodyText} (formed : b.WellFormed) (small : ∀ c ∈ b.chunks, c.data.length < 2 ^ 63)
    (failing : Bool) : b.Readable failing :=
  ⟨fun c listed => (formed.1 c listed).readable (small c listed),[],formed.stops failing⟩

/-- No memory holds a chunk of `2 ^ 63` bytes. -/
theorem huge_not_decoded {chunks : List ChunkText} (formed : ∀ c ∈ chunks, c.WellFormed)
    (huge : ∃ c ∈ chunks, 2 ^ 63 ≤ c.data.length) {stop : Bytes} {failure : Option IoError} {turns : Nat}
    (enough : (BodyText.mk chunks stop).bytes.length < turns) (decoded all : Bytes) :
    decode_chunks turns (BodyText.mk chunks stop).bytes failure decoded ≠ some (.ok all) := by
  induction chunks generalizing turns decoded with
  | nil =>
    obtain ⟨c,listed,-⟩ := huge
    cases listed
  | cons c rest ih =>
    have split : (BodyText.mk (c :: rest) stop).bytes = c.line ++ (c.data ++ (c.delimiter ++ (BodyText.mk rest stop).bytes)) := by
      simp [BodyText.bytes,ChunkText.bytes]
    obtain ⟨spelled,nonempty,delimiter⟩ := formed c List.mem_cons_self
    obtain ⟨turns,rfl⟩ := Nat.exists_eq_add_of_lt (Nat.zero_lt_of_lt enough)
    rw [split] at enough ⊢
    simp only [List.length_append] at enough
    rw [Nat.zero_add] at *
    by_cases here : 2 ^ 63 ≤ c.data.length
    · obtain ⟨whole,text,same,some_char,size⟩ := spelled.reads
      obtain ⟨n,positive⟩ := Nat.exists_eq_succ_of_ne_zero (Nat.pos_iff_ne_zero.mp nonempty)
      rw [decode_chunks,read_line_whole whole same]
      cases text with
      | nil => exact absurd rfl some_char
      | cons first more =>
        simp only [size]
        by_cases fits : c.data.length < 2 ^ 64
        · rw [if_pos fits,positive]
          simp only [Nat.succ_eq_add_one]
          rw [← Nat.succ_eq_add_one,← positive,if_pos here]
          nofun
        · rw [if_neg fits]
          nofun
    · have readable := (formed c List.mem_cons_self).readable (by omega)
      have two := readable.delimiter
      rw [decode_turn readable.line readable.size nonempty readable.small,if_neg (by rw [List.length_append]; omega),
        List.drop_left' two]
      obtain ⟨other,listed,long⟩ := huge
      obtain rfl | later := List.mem_cons.mp listed
      · exact absurd long here
      · refine ih (fun other listed => formed other (List.mem_cons_of_mem c listed)) ⟨other,later,long⟩ ?_ _
        omega

/-! ### The reader of a body -/

/-- The body is accepted just when it is complete, with the data of its chunks. -/
def StreamedRight (headers : HeaderMap) (body : ByteStream) : Prop :=
  ∀ data, body_to_reader headers body = some (.ok (.cursor data)) ↔ CompleteStream body.body data

/-- Every size line can be read and the data of every chunk is there, but not in the layout of the format: the chunk of size
    zero is missing or something else than a line end follows it, a line or the data does not end in CRLF, or a size is
    written in another way. -/
def Slipped (body : ByteStream) : Prop :=
  ∃ b : BodyText, b.bytes = body.body ∧ b.Readable body.failure.isSome ∧ ¬ b.WellFormed

/-- A complete body with a chunk that no memory holds. -/
def Oversized (body : ByteStream) : Prop :=
  ∃ b : BodyText, b.bytes = body.body ∧ b.WellFormed ∧ ∃ c ∈ b.chunks, 2 ^ 63 ≤ c.data.length

/-- Bodies that any memory holds are not oversized. -/
theorem oversized_long {body : ByteStream} (oversized : Oversized body) : 2 ^ 63 ≤ body.body.length := by
  obtain ⟨b,same,-,c,listed,long⟩ := oversized
  obtain ⟨front,back,split⟩ := List.append_of_mem listed
  rw [← same,BodyText.bytes,split]
  simp only [List.flatMap_append,List.flatMap_cons,ChunkText.bytes,List.length_append]
  omega

/-- A complete body has no other layout. -/
theorem complete_not_slipped {body : ByteStream} {b : BodyText} (same : b.bytes = body.body) (formed : b.WellFormed)
    (small : ∀ c ∈ b.chunks, c.data.length < 2 ^ 63) : ¬ Slipped body := by
  rintro ⟨b',same',readable,slip⟩
  have one := readable.unique (formed.readable small _) (same'.trans same.symm)
  exact slip (one ▸ formed)

section
variable {headers : HeaderMap} (chunked : is_aws_chunked headers = true) {body : ByteStream}

include chunked

theorem body_to_reader_iff (data : Bytes) : body_to_reader headers body = some (.ok (.cursor data)) ↔
    decode_chunks (body.body.length + 1) body.body body.failure [] = some (.ok data) := by
  rw [body_to_reader,if_pos chunked]
  cases decode_chunks (body.body.length + 1) body.body body.failure [] with
  | none => simp
  | some result =>
    cases result with
    | error e => simp [Except.map]
    | ok found =>
      simp only [Option.map_some,Except.map,Option.some.injEq,Except.ok.injEq]
      constructor
      · intro same
        rw [← ByteStream.body_cursor found,same,ByteStream.body_cursor]
      · rintro rfl
        rfl

/-- What is complete is read as its chunks. -/
theorem complete_read {b : BodyText} (same : b.bytes = body.body) (formed : b.WellFormed)
    (small : ∀ c ∈ b.chunks, c.data.length < 2 ^ 63) : body_to_reader headers body = some (.ok (.cursor b.data)) := by
  rw [body_to_reader_iff chunked,← same]
  have decoded := decode_readable (fun c listed => (formed.1 c listed).readable (small c listed))
    (formed.stops body.failure.isSome) rfl (Nat.lt_succ_self _) []
  rwa [List.nil_append,List.append_nil] at decoded

theorem slipped_not_right (slipped : Slipped body) : ¬ StreamedRight headers body := by
  obtain ⟨b,same,readable,slip⟩ := slipped
  intro right
  obtain ⟨each,data,stops⟩ := readable
  have decoded := decode_readable each stops rfl (Nat.lt_succ_self _) []
  rw [same,← body_to_reader_iff chunked,right] at decoded
  obtain ⟨b',same',-,formed⟩ := decoded
  by_cases huge : ∃ c ∈ b'.chunks, 2 ^ 63 ≤ c.data.length
  · have accepted := decode_readable each stops rfl (Nat.lt_succ_self _) []
    rw [same,← same'] at accepted
    exact huge_not_decoded formed.1 huge (Nat.lt_succ_self _) [] _ accepted
  · have small : ∀ c ∈ b'.chunks, c.data.length < 2 ^ 63 := fun c listed =>
      Nat.lt_of_not_le fun long => huge ⟨c,listed,long⟩
    exact complete_not_slipped same' formed small ⟨b,same,⟨each,data,stops⟩,slip⟩

theorem oversized_not_right (oversized : Oversized body) : ¬ StreamedRight headers body := by
  obtain ⟨b,same,formed,huge⟩ := oversized
  intro right
  have accepted := (right b.data).mpr ⟨b,same,rfl,formed⟩
  rw [body_to_reader_iff chunked,← same] at accepted
  exact huge_not_decoded formed.1 huge (Nat.lt_succ_self _) [] _ accepted

end

namespace Sample

def streaming_headers : HeaderMap := [("x-amz-content-sha256".toList,utf8 "STREAMING-AWS4-HMAC-SHA256-PAYLOAD")]

theorem streaming : is_aws_chunked streaming_headers = true := by decide +kernel

/-- `3 CRLF abc CRLF` -/
def abc_chunk : ChunkText := ⟨[51,13,10],abc,CRLF⟩

/-- The chunk, and `0 CRLF CRLF` behind it. -/
def whole_text : BodyText := ⟨[abc_chunk],[48,13,10] ++ CRLF⟩

def cut_text : BodyText := ⟨[abc_chunk],[]⟩

theorem abc_chunk_formed : abc_chunk.WellFormed :=
  ⟨⟨['3'],[],[3],by decide,by decide,.cons (by decide) .nil,by decide,.inl rfl⟩,by decide,rfl⟩

theorem whole_formed : whole_text.WellFormed := by
  refine ⟨fun c listed => ?_,[48,13,10],⟨['0'],[],[0],by decide,by decide,.cons (by decide) .nil,by decide,.inl rfl⟩,rfl⟩
  rw [List.mem_singleton.mp listed]
  exact abc_chunk_formed

theorem abc_small : ∀ c ∈ whole_text.chunks, c.data.length < 2 ^ 63 := by
  intro c listed
  rw [List.mem_singleton.mp listed]
  decide

end Sample

end Maxio
