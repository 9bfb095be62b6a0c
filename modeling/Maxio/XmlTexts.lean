import Mathlib

/-!
Elements that hold other elements or a text, written as XML, and the tokens a reader finds in such a document when it
trims texts and passes over blank ones.
-/

namespace Maxio.XmlTexts

/-! ### Texts -/

def blank (c : Char) : Bool := c = ' ' || c = '\t' || c = '\n' || c = '\r'

/-- Without the blanks at both ends. -/
def trim (s : List Char) : List Char := (s.dropWhile blank).rdropWhile blank

def escape (c : Char) : List Char :=
  if c = '<' then ['&','l','t',';']
  else if c = '>' then ['&','g','t',';']
  else if c = '&' then ['&','a','m','p',';']
  else [c]

def unescape : List Char → Option (List Char)
  | '&' :: 'l' :: 't' :: ';' :: rest => (unescape rest).map ('<' :: ·)
  | '&' :: 'g' :: 't' :: ';' :: rest => (unescape rest).map ('>' :: ·)
  | '&' :: 'a' :: 'm' :: 'p' :: ';' :: rest => (unescape rest).map ('&' :: ·)
  | '&' :: 'q' :: 'u' :: 'o' :: 't' :: ';' :: rest => (unescape rest).map ('"' :: ·)
  | '&' :: 'a' :: 'p' :: 'o' :: 's' :: ';' :: rest => (unescape rest).map ('\'' :: ·)
  | '&' :: _ => none
  | c :: rest => (unescape rest).map (c :: ·)
  | [] => some []

theorem escape_plain {c : Char} (less : c ≠ '<') (greater : c ≠ '>') (ampersand : c ≠ '&') : escape c = [c] := by
  rw [escape,if_neg less,if_neg greater,if_neg ampersand]

theorem unescape_escape (s : List Char) : unescape (s.flatMap escape) = some s := by
  induction s with
  | nil => rfl
  | cons c rest ih =>
    rw [List.flatMap_cons]
    by_cases less : c = '<'
    · subst less
      simp [escape,unescape,ih]
    by_cases greater : c = '>'
    · subst greater
      simp [escape,unescape,ih]
    by_cases ampersand : c = '&'
    · subst ampersand
      simp [escape,unescape,ih]
    rw [escape_plain less greater ampersand,List.singleton_append,unescape.eq_def]
    split <;> simp_all

theorem not_mem_escape (s : List Char) : '<' ∉ s.flatMap escape := by
  rw [List.mem_flatMap]
  rintro ⟨c,-,member⟩
  by_cases less : c = '<'
  · subst less
    exact absurd member (by decide)
  by_cases greater : c = '>'
  · subst greater
    exact absurd member (by decide)
  by_cases ampersand : c = '&'
  · subst ampersand
    exact absurd member (by decide)
  rw [escape_plain less greater ampersand,List.mem_singleton] at member
  exact less member.symm

theorem escape_blank {c : Char} (white : blank c = true) : escape c = [c] := by
  apply escape_plain
  all_goals
    rintro rfl
    revert white
    decide

/-- What is not blank is written without a blank at either end. -/
theorem escape_ends {c : Char} (solid : blank c = false) :
    (∃ d rest, escape c = d :: rest ∧ blank d = false) ∧ ∃ d rest, (escape c).reverse = d :: rest ∧ blank d = false := by
  by_cases less : c = '<'
  · subst less
    exact ⟨⟨'&',['l','t',';'],rfl,rfl⟩,⟨';',['t','l','&'],rfl,rfl⟩⟩
  by_cases greater : c = '>'
  · subst greater
    exact ⟨⟨'&',['g','t',';'],rfl,rfl⟩,⟨';',['t','g','&'],rfl,rfl⟩⟩
  by_cases ampersand : c = '&'
  · subst ampersand
    exact ⟨⟨'&',['a','m','p',';'],rfl,rfl⟩,⟨';',['p','m','a','&'],rfl,rfl⟩⟩
  rw [escape_plain less greater ampersand]
  exact ⟨⟨c,[],rfl,solid⟩,⟨c,[],rfl,solid⟩⟩

/-- Blanks at the front are written as they are, and what follows begins with no blank. -/
theorem dropWhile_flatMap {f : Char → List Char} (white : ∀ c, blank c = true → f c = [c])
    (solid : ∀ c, blank c = false → ∃ d rest, f c = d :: rest ∧ blank d = false) (s : List Char) :
    (s.flatMap f).dropWhile blank = (s.dropWhile blank).flatMap f := by
  induction s with
  | nil => rfl
  | cons c rest ih =>
    rw [List.flatMap_cons]
    cases here : blank c with
    | true => rw [white c here,List.singleton_append,List.dropWhile_cons_of_pos here,List.dropWhile_cons_of_pos here,ih]
    | false =>
      obtain ⟨d,more,first,kept⟩ := solid c here
      rw [List.dropWhile_cons_of_neg (by rw [here]; decide),List.flatMap_cons,first,List.cons_append,
        List.dropWhile_cons_of_neg (by rw [kept]; decide)]

theorem trim_escape (s : List Char) : trim (s.flatMap escape) = (trim s).flatMap escape := by
  rw [trim,trim,dropWhile_flatMap (fun _ => escape_blank) (fun _ solid => (escape_ends solid).1),List.rdropWhile,
    List.rdropWhile,List.reverse_flatMap,dropWhile_flatMap]
  · rw [List.reverse_flatMap]
    congr 1
    funext c
    exact List.reverse_reverse _
  · intro c white
    rw [Function.comp_apply,escape_blank white]
    rfl
  · exact fun _ solid => (escape_ends solid).2

theorem escape_eq_nil {s : List Char} (empty : s.flatMap escape = []) : s = [] := by
  have back := unescape_escape s
  rw [empty] at back
  exact (Option.some.inj back).symm

theorem blank_head {c : Char} {rest : List Char} {s : List Char} (left : s.dropWhile blank = c :: rest) : blank c = false := by
  have solid := List.head?_dropWhile_not blank s
  rw [left] at solid
  simpa using solid

theorem trim_trim (s : List Char) : trim (trim s) = trim s := by
  have ends : (trim s).rdropWhile blank = trim s := List.rdropWhile_idempotent blank _
  have front : (trim s).dropWhile blank = trim s := by
    rw [trim]
    cases left : s.dropWhile blank with
    | nil => rfl
    | cons c rest =>
      have solid := blank_head left
      cases kept : (c :: rest).rdropWhile blank with
      | nil => rfl
      | cons d more =>
        have same : d = c := by
          have front := List.rdropWhile_prefix blank (c :: rest)
          rw [kept] at front
          exact (List.cons_prefix_cons.mp front).1
        rw [List.dropWhile_cons_of_neg (by rw [same,solid]; decide)]
  rw [trim,front,ends]

/-- What a reader leaves as it is. -/
def Solid (s : String) : Prop := s ≠ "" ∧ trim s.toList = s.toList

instance (s : String) : Decidable (Solid s) := inferInstanceAs (Decidable (_ ∧ _))

theorem solid_trim {s : List Char} (left : trim s ≠ []) : Solid (String.ofList (trim s)) := by
  refine ⟨fun empty => left ?_,?_⟩
  · simpa using empty
  · rw [String.toList_ofList,trim_trim]

/-! ### Documents -/

inductive Xml where
  | node (name : String) (children : List Xml)
  | leaf (name value : String)

/-- What a reader comes across; a text with what it unescapes to. -/
inductive Token where
  | opens (name : String)
  | closes (name : String)
  | text (value : Option String)
  | other
  deriving DecidableEq, Repr

/-- The token of a text, if it is not blank. -/
def words (raw : List Char) : List Token :=
  if trim raw = [] then [] else [.text ((unescape (trim raw)).map String.ofList)]

/-- The token of the text that is written for a value. -/
def shown (value : String) : List Token :=
  if trim value.toList = [] then [] else [.text (some (String.ofList (trim value.toList)))]

theorem shown_solid {value : String} (solid : Solid value) : shown value = [.text (some value)] := by
  have nonempty : value.toList ≠ [] := by simpa using solid.1
  rw [shown,solid.2,if_neg nonempty,String.ofList_toList]

theorem words_escape (value : String) : words (value.toList.flatMap escape) = shown value := by
  rw [words,shown,trim_escape,unescape_escape]
  by_cases empty : trim value.toList = []
  · rw [if_pos empty,empty]
    rfl
  · rw [if_neg empty,if_neg fun none => empty (escape_eq_nil none)]
    rfl

namespace Xml

mutual

/-- The tokens of an element. -/
def tokens : Xml → List Token
  | .node name children => if children.isEmpty then [.other] else .opens name :: (tokens_of children ++ [.closes name])
  | .leaf name value => if value.toList.isEmpty then [.other] else .opens name :: (shown value ++ [.closes name])

def tokens_of : List Xml → List Token
  | [] => []
  | e :: rest => tokens e ++ tokens_of rest

end

def start_tag (name : String) : List Char := '<' :: (name.toList ++ ['>'])
def end_tag (name : String) : List Char := '<' :: '/' :: (name.toList ++ ['>'])
def empty_tag (name : String) : List Char := '<' :: (name.toList ++ ['/','>'])

mutual

def render : Xml → List Char
  | .node name children =>
    if children.isEmpty then empty_tag name else start_tag name ++ (render_all children ++ end_tag name)
  | .leaf name value =>
    if value.toList.isEmpty then empty_tag name else start_tag name ++ (value.toList.flatMap escape ++ end_tag name)

def render_all : List Xml → List Char
  | [] => []
  | e :: rest => render e ++ render_all rest

end

/-- A name of letters and digits. -/
def Plain (name : String) : Prop := ∃ c rest, name.toList = c :: rest ∧ ∀ d ∈ c :: rest, d.isAlphanum = true

mutual

/-- All names are plain. -/
def Named : Xml → Prop
  | .node name children => Plain name ∧ NamedAll children
  | .leaf name _ => Plain name

def NamedAll : List Xml → Prop
  | [] => True
  | e :: rest => Named e ∧ NamedAll rest

end

end Xml

/-! ### Reading -/

/-- The token between angle brackets. -/
def markup (content : List Char) : Token := match content with
  | '/' :: name => .closes (String.ofList name)
  | '?' :: _ => .other
  | _ => if content.getLast? = some '/' then .other else .opens (String.ofList content)

/-- The tokens of a well-formed document. -/
def read : List Char → List Token
  | [] => []
  | c :: rest =>
    if c = '<' then markup (rest.takeWhile (· ≠ '>')) :: read ((rest.dropWhile (· ≠ '>')).drop 1)
    else words (c :: rest.takeWhile (· ≠ '<')) ++ read (rest.dropWhile (· ≠ '<'))
termination_by s => s.length
decreasing_by
  · have shorter := List.length_dropWhile_le (· ≠ '>') rest
    simp only [List.length_drop,List.length_cons]
    omega
  · have shorter := List.length_dropWhile_le (· ≠ '<') rest
    simp only [List.length_cons]
    omega

theorem takeWhile_to {p : Char → Bool} {front : List Char} {stop : Char} (inside : ∀ c ∈ front, p c = true)
    (ends : p stop = false) (rest : List Char) : (front ++ stop :: rest).takeWhile p = front := by
  rw [List.takeWhile_append_of_pos inside,List.takeWhile_cons_of_neg (by rw [ends]; decide),List.append_nil]

theorem dropWhile_to {p : Char → Bool} {front : List Char} {stop : Char} (inside : ∀ c ∈ front, p c = true)
    (ends : p stop = false) (rest : List Char) : (front ++ stop :: rest).dropWhile p = stop :: rest := by
  rw [List.dropWhile_append_of_pos inside,List.dropWhile_cons_of_neg (by rw [ends]; decide)]

theorem read_markup {content : List Char} (inside : '>' ∉ content) (rest : List Char) :
    read ('<' :: (content ++ '>' :: rest)) = markup content :: read rest := by
  have before : ∀ c ∈ content, decide (c ≠ '>') = true := fun c member => decide_eq_true fun same => inside (same ▸ member)
  rw [read,if_pos rfl,takeWhile_to before (by decide),dropWhile_to before (by decide)]
  rfl

theorem read_text (value : String) (rest : List Char) :
    read (value.toList.flatMap escape ++ '<' :: rest) = shown value ++ read ('<' :: rest) := by
  rw [← words_escape]
  have inside := not_mem_escape value.toList
  generalize value.toList.flatMap escape = raw at inside
  cases raw with
  | nil => rfl
  | cons c more =>
    rw [List.mem_cons,not_or] at inside
    have before : ∀ d ∈ more, decide (d ≠ '<') = true := fun d member => decide_eq_true fun same => inside.2 (same ▸ member)
    rw [List.cons_append,read,if_neg (Ne.symm inside.1),takeWhile_to before (by decide),dropWhile_to before (by decide)]

namespace Xml

theorem plain_outside {name : String} (plain : Plain name) {c : Char} (other : c.isAlphanum = false) : c ∉ name.toList := by
  obtain ⟨first,rest,spelled,each⟩ := plain
  rw [spelled]
  intro member
  rw [each c member] at other
  cases other

theorem read_start {name : String} (plain : Plain name) (rest : List Char) :
    read (start_tag name ++ rest) = .opens name :: read rest := by
  have token : markup name.toList = .opens name := by
    have last : name.toList.getLast? ≠ some '/' := fun ends => plain_outside plain (by decide) (List.mem_of_getLast? ends)
    have kept : String.ofList name.toList = name := String.ofList_toList
    obtain ⟨c,more,spelled,each⟩ := plain
    have first := each c List.mem_cons_self
    rw [markup.eq_def]
    split
    next name' slash =>
      rw [spelled] at slash
      rw [(List.cons.inj slash).1] at first
      exact absurd first (by decide)
    next question =>
      rw [spelled] at question
      rw [(List.cons.inj question).1] at first
      exact absurd first (by decide)
    next => rw [if_neg last,kept]
  rw [start_tag,List.cons_append,List.append_assoc,List.singleton_append,read_markup (plain_outside plain (by decide)),token]

theorem read_end {name : String} (plain : Plain name) (rest : List Char) :
    read (end_tag name ++ rest) = .closes name :: read rest := by
  have inside : '>' ∉ '/' :: name.toList := by
    rw [List.mem_cons,not_or]
    exact ⟨by decide,plain_outside plain (by decide)⟩
  have read := read_markup inside rest
  rw [markup,String.ofList_toList] at read
  rw [← read]
  simp [end_tag]

theorem read_empty {name : String} (plain : Plain name) (rest : List Char) :
    read (empty_tag name ++ rest) = .other :: read rest := by
  have inside : '>' ∉ name.toList ++ ['/'] := by
    rw [List.mem_append,not_or]
    exact ⟨plain_outside plain (by decide),by decide⟩
  have token : markup (name.toList ++ ['/']) = .other := by
    obtain ⟨c,more,spelled,each⟩ := plain
    have first := each c List.mem_cons_self
    rw [markup.eq_def]
    split
    next name' slash =>
      rw [spelled,List.cons_append] at slash
      rw [(List.cons.inj slash).1] at first
      exact absurd first (by decide)
    next => rfl
    next => rw [if_pos (by rw [List.getLast?_append]; rfl)]
  have read := read_markup inside rest
  rw [token] at read
  rw [← read]
  simp [empty_tag]

mutual

/-- A reader finds the tokens of what was written. -/
theorem read_render (e : Xml) (named : e.Named) (rest : List Char) : read (e.render ++ rest) = e.tokens ++ read rest := by
  match e with
  | .node name children =>
    rw [Named] at named
    rw [render,tokens]
    by_cases empty : children.isEmpty = true
    · rw [if_pos empty,if_pos empty]
      exact read_empty named.1 rest
    · rw [if_neg empty,if_neg empty,List.append_assoc,read_start named.1,List.append_assoc,
        read_render_all children named.2,read_end named.1]
      simp
  | .leaf name value =>
    rw [Named] at named
    rw [render,tokens]
    by_cases empty : value.toList.isEmpty = true
    · rw [if_pos empty,if_pos empty]
      exact read_empty named rest
    · rw [if_neg empty,if_neg empty,List.append_assoc,read_start named,List.append_assoc]
      have ends := read_end named rest
      rw [end_tag,List.cons_append] at ends ⊢
      rw [read_text,ends]
      simp

theorem read_render_all (es : List Xml) (named : NamedAll es) (rest : List Char) :
    read (render_all es ++ rest) = tokens_of es ++ read rest := by
  match es with
  | [] => rfl
  | e :: more =>
    rw [NamedAll] at named
    rw [render_all,tokens_of,List.append_assoc,read_render e named.1,read_render_all more named.2,List.append_assoc]

end

end Xml

/-! ### Sizes -/

/-- Bytes of a text. -/
def size (s : List Char) : Nat := (s.flatMap String.utf8EncodeChar).length

theorem size_append (s t : List Char) : size (s ++ t) = size s + size t := by
  rw [size,List.flatMap_append,List.length_append]
  rfl

theorem size_escape (s : List Char) : size (s.flatMap escape) ≤ 6 * size s := by
  induction s with
  | nil => exact Nat.le_refl 0
  | cons c rest ih =>
    have one : size (escape c) ≤ 6 * size [c] := by
      by_cases less : c = '<'
      · subst less
        decide
      by_cases greater : c = '>'
      · subst greater
        decide
      by_cases ampersand : c = '&'
      · subst ampersand
        decide
      rw [escape_plain less greater ampersand]
      omega
    have split := size_append [c] rest
    rw [List.singleton_append] at split
    rw [List.flatMap_cons,size_append,split]
    omega

namespace Xml

mutual

/-- What an element takes at most when a byte of a text takes six. -/
def weight : Xml → Nat
  | .node name children => 2 * size name.toList + 5 + weight_all children
  | .leaf name value => 2 * size name.toList + 5 + 6 * size value.toList

def weight_all : List Xml → Nat
  | [] => 0
  | e :: rest => weight e + weight_all rest

end

theorem size_tags (name : String) :
    size (start_tag name) = size name.toList + 2 ∧ size (end_tag name) = size name.toList + 3 ∧
      size (empty_tag name) = size name.toList + 3 := by
  have first : size ['<'] = 1 := by decide
  have second : size ['<','/'] = 2 := by decide
  have last : size ['>'] = 1 := by decide
  have closed : size ['/','>'] = 2 := by decide
  refine ⟨?_,?_,?_⟩
  · rw [start_tag,← List.singleton_append,size_append,size_append,first,last]
    omega
  · rw [end_tag,show '<' :: '/' :: (name.toList ++ ['>']) = ['<','/'] ++ (name.toList ++ ['>']) from rfl,size_append,
      size_append,second,last]
    omega
  · rw [empty_tag,← List.singleton_append,size_append,size_append,first,closed]
    omega

mutual

theorem size_render (e : Xml) : size e.render ≤ e.weight := by
  match e with
  | .node name children =>
    have tags := size_tags name
    have inner := size_render_all children
    rw [render,weight]
    split
    · omega
    · rw [size_append,size_append]
      omega
  | .leaf name value =>
    have tags := size_tags name
    have inner := size_escape value.toList
    rw [render,weight]
    split
    · omega
    · rw [size_append,size_append]
      omega

theorem size_render_all (es : List Xml) : size (render_all es) ≤ weight_all es := by
  match es with
  | [] => exact Nat.le_refl 0
  | e :: more =>
    have first := size_render e
    have later := size_render_all more
    rw [render_all,weight_all,size_append]
    omega

end

end Xml
end Maxio.XmlTexts
