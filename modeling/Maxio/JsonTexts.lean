import Maxio.JsonValues

/-!
The compact text of a JSON value, and that it can stand for no other: a value ends where its text does, whatever follows.
-/

namespace Maxio.JsonValues

/-! ### Characters of a string -/

/-- A character between quotation marks. -/
def escape_char (c : Char) : List Char :=
  if c = '"' then ['\\','"']
  else if c = '\\' then ['\\','\\']
  else if c = '\n' then ['\\','n']
  else if c = '\r' then ['\\','r']
  else if c = '\t' then ['\\','t']
  else if c = Char.ofNat 8 then ['\\','b']
  else if c = Char.ofNat 12 then ['\\','f']
  else if c.toNat < 32 then ['\\','u','0','0',Nat.digitChar (c.toNat / 16),Nat.digitChar (c.toNat % 16)]
  else [c]

def digit_value (c : Char) : Nat := ((List.range 16).find? fun d => Nat.digitChar d = c).getD 0

/-- The first character that is written, and what follows it. -/
def read_char : List Char → Option (Char × List Char)
  | '\\' :: 'u' :: '0' :: '0' :: high :: low :: rest => some (Char.ofNat (16 * digit_value high + digit_value low),rest)
  | '\\' :: 'n' :: rest => some ('\n',rest)
  | '\\' :: 'r' :: rest => some ('\r',rest)
  | '\\' :: 't' :: rest => some ('\t',rest)
  | '\\' :: 'b' :: rest => some (Char.ofNat 8,rest)
  | '\\' :: 'f' :: rest => some (Char.ofNat 12,rest)
  | '\\' :: c :: rest => some (c,rest)
  | c :: rest => some (c,rest)
  | [] => none

theorem digit_value_digitChar : ∀ d < 16, digit_value (Nat.digitChar d) = d := by decide

theorem read_escape_char (c : Char) (rest : List Char) : read_char (escape_char c ++ rest) = some (c,rest) := by
  unfold escape_char
  split
  next same => rw [same]; rfl
  split
  next same => rw [same]; rfl
  split
  next same => rw [same]; rfl
  split
  next same => rw [same]; rfl
  split
  next same => rw [same]; rfl
  split
  next same => rw [same]; rfl
  split
  next same => rw [same]; rfl
  split
  next small =>
    have high := digit_value_digitChar (c.toNat / 16) (by omega)
    have low := digit_value_digitChar (c.toNat % 16) (by omega)
    change some (Char.ofNat (16 * digit_value (Nat.digitChar (c.toNat / 16)) +
      digit_value (Nat.digitChar (c.toNat % 16))),rest) = _
    rw [high,low,Nat.div_add_mod,Char.ofNat_toNat]
  next quote backslash _ _ _ _ _ _ =>
    rw [List.singleton_append,read_char.eq_def]
    split <;> simp_all

theorem escape_char_prefix {c c' : Char} {rest rest' : List Char} (same : escape_char c ++ rest = escape_char c' ++ rest') :
    c = c' ∧ rest = rest' := by
  have read := read_escape_char c rest
  rw [same,read_escape_char,Option.some.injEq,Prod.mk.injEq] at read
  exact ⟨read.1.symm,read.2.symm⟩

/-- No character begins as the closing quotation mark does. -/
theorem escape_char_head (c : Char) (rest after : List Char) : escape_char c ++ rest ≠ '"' :: after := by
  unfold escape_char
  repeat' split
  all_goals simp_all

def quoted (s : String) : List Char := '"' :: (s.toList.flatMap escape_char ++ ['"'])

theorem quoted_prefix {s s' : String} {rest rest' : List Char} (same : quoted s ++ rest = quoted s' ++ rest') :
    s = s' ∧ rest = rest' := by
  have inner : ∀ cs cs' : List Char, cs.flatMap escape_char ++ '"' :: rest = cs'.flatMap escape_char ++ '"' :: rest' →
      cs = cs' ∧ rest = rest' := by
    intro cs
    induction cs with
    | nil =>
      intro cs' same
      cases cs' with
      | nil => simpa using same
      | cons c' more' =>
        rw [List.flatMap_cons,List.append_assoc] at same
        exact absurd same.symm (escape_char_head c' _ _)
    | cons c more ih =>
      intro cs' same
      rw [List.flatMap_cons,List.append_assoc] at same
      cases cs' with
      | nil => exact absurd same (escape_char_head c _ _)
      | cons c' more' =>
        rw [List.flatMap_cons,List.append_assoc] at same
        obtain ⟨rfl,later⟩ := escape_char_prefix same
        obtain ⟨rfl,ends⟩ := ih more' later
        exact ⟨rfl,ends⟩
  have both := inner s.toList s'.toList (by simpa [quoted] using same)
  exact ⟨String.toList_inj.mp both.1,both.2⟩

/-! ### Values -/

def number_char (c : Char) : Bool := c.isDigit || c = '-' || c = '+' || c = '.' || c = 'e' || c = 'E'

/-- How numbers are written. -/
structure Numerals (N : Type) where
  text : N → List Char
  injective : Function.Injective text
  nonempty : ∀ n, text n ≠ []
  chars : ∀ n, ∀ c ∈ text n, number_char c = true

variable {N : Type} (numerals : Numerals N)

mutual

/-- The text of a value without blanks. -/
def render : Value N → List Char
  | .null => ['n','u','l','l']
  | .bool true => ['t','r','u','e']
  | .bool false => ['f','a','l','s','e']
  | .number n => numerals.text n
  | .string s => quoted s
  | .array [] => ['[',']']
  | .array (v :: rest) => '[' :: (render v ++ render_items rest)
  | .object [] => ['\x7b','\x7d']
  | .object ((name,v) :: rest) => '\x7b' :: (quoted name ++ ':' :: (render v ++ render_members rest))

/-- The items after the first. -/
def render_items : List (Value N) → List Char
  | [] => [']']
  | v :: rest => ',' :: (render v ++ render_items rest)

/-- The members after the first. -/
def render_members : List (String × Value N) → List Char
  | [] => ['\x7d']
  | (name,v) :: rest => ',' :: (quoted name ++ ':' :: (render v ++ render_members rest))

end

/-- What may follow a value: nothing that would make a number longer. -/
def Ends (rest : List Char) : Prop := ∀ c ∈ rest.head?, number_char c = false

/-- The kind of a value by the first character of its text. -/
def kind_of (c : Char) : Nat :=
  if c = 'n' then 0 else if c = 't' then 1 else if c = 'f' then 2 else if c = '"' then 3 else if c = '[' then 4
  else if c = '\x7b' then 5 else if number_char c then 6 else 7

def kind : Value N → Nat
  | .null => 0
  | .bool true => 1
  | .bool false => 2
  | .string _ => 3
  | .array _ => 4
  | .object _ => 5
  | .number _ => 6

theorem render_head (v : Value N) : ∃ c rest, render numerals v = c :: rest ∧ kind_of c = kind v := by
  cases v with
  | null => exact ⟨_,_,by rw [render],rfl⟩
  | bool b => cases b <;> exact ⟨_,_,by rw [render],rfl⟩
  | number n =>
    obtain ⟨c,rest,text⟩ := List.exists_cons_of_ne_nil (numerals.nonempty n)
    refine ⟨c,rest,by rw [render,text],?_⟩
    have char := numerals.chars n c (by simp [text])
    unfold kind_of
    repeat' split
    all_goals simp_all [number_char,kind]
  | string s => exact ⟨_,_,by rw [render,quoted],rfl⟩
  | array items => cases items <;> exact ⟨_,_,by rw [render],rfl⟩
  | object members => cases members <;> exact ⟨_,_,by rw [render],rfl⟩

theorem same_kind {v w : Value N} {r r' : List Char} (same : render numerals v ++ r = render numerals w ++ r') :
    kind v = kind w := by
  obtain ⟨c,rest,text,own⟩ := render_head numerals v
  obtain ⟨c',rest',text',own'⟩ := render_head numerals w
  rw [text,text',List.cons_append,List.cons_append,List.cons.injEq] at same
  rw [← own,← own',same.1]

theorem number_prefix {n n' : N} {r r' : List Char} (ends : Ends r) (ends' : Ends r')
    (same : numerals.text n ++ r = numerals.text n' ++ r') : n = n' ∧ r = r' := by
  have cut {n : N} {r : List Char} (ends : Ends r) : (numerals.text n ++ r).takeWhile number_char = numerals.text n ∧
      (numerals.text n ++ r).dropWhile number_char = r := by
    have rest : r.takeWhile number_char = [] ∧ r.dropWhile number_char = r := by
      cases r with
      | nil => exact ⟨rfl,rfl⟩
      | cons c more =>
        have other : number_char c = false := ends c rfl
        exact ⟨List.takeWhile_cons_of_neg (by simp [other]),List.dropWhile_cons_of_neg (by simp [other])⟩
    rw [List.takeWhile_append_of_pos (numerals.chars n),List.dropWhile_append_of_pos (numerals.chars n),rest.1,rest.2,
      List.append_nil]
    exact ⟨rfl,rfl⟩
  obtain ⟨front,back⟩ := cut (n := n) ends
  obtain ⟨front',back'⟩ := cut (n := n') ends'
  rw [same] at front back
  exact ⟨numerals.injective (front.symm.trans front'),back.symm.trans back'⟩

theorem items_end (items : List (Value N)) (r : List Char) : Ends (render_items numerals items ++ r) := by
  intro c first
  cases items <;> rw [render_items] at first <;> cases first <;> rfl

theorem members_end (members : List (String × Value N)) (r : List Char) : Ends (render_members numerals members ++ r) := by
  intro c first
  cases members with
  | nil => rw [render_members] at first; cases first; rfl
  | cons member rest => rw [render_members] at first; cases first; rfl

/-- No value begins as a list of items ends. -/
theorem render_not_closing (v : Value N) (rest after : List Char) : render numerals v ++ rest ≠ ']' :: after := by
  intro same
  obtain ⟨c,more,text,kinds⟩ := render_head numerals v
  rw [text,List.cons_append,List.cons.injEq] at same
  rw [same.1] at kinds
  cases v with
  | bool b => cases b <;> cases kinds
  | _ => cases kinds

mutual

/-- A text that begins with a value begins with no other. -/
theorem render_prefix : ∀ (v w : Value N) (r r' : List Char), Ends r → Ends r' →
    render numerals v ++ r = render numerals w ++ r' → v = w ∧ r = r' := by
  intro v w r r' ends ends' same
  have kinds := same_kind numerals same
  cases v with
  | null =>
    cases w with
    | null => simpa [render] using same
    | bool b => cases b <;> cases kinds
    | _ => cases kinds
  | bool b =>
    cases w with
    | bool b' =>
      cases b with
      | true =>
        cases b' with
        | true => simpa [render] using same
        | false => cases kinds
      | false =>
        cases b' with
        | true => cases kinds
        | false => simpa [render] using same
    | _ => cases b <;> cases kinds
  | number n =>
    cases w with
    | number n' =>
      rw [render,render] at same
      obtain ⟨rfl,rest⟩ := number_prefix numerals ends ends' same
      exact ⟨rfl,rest⟩
    | bool b => cases b <;> cases kinds
    | _ => cases kinds
  | string s =>
    cases w with
    | string s' =>
      rw [render,render] at same
      obtain ⟨rfl,rest⟩ := quoted_prefix same
      exact ⟨rfl,rest⟩
    | bool b => cases b <;> cases kinds
    | _ => cases kinds
  | array items =>
    cases w with
    | array items' =>
      cases items with
      | nil =>
        cases items' with
        | nil => simpa [render] using same
        | cons v' rest' =>
          rw [render,render] at same
          have tails : ']' :: r = render numerals v' ++ render_items numerals rest' ++ r' := (List.cons.inj same).2
          rw [List.append_assoc] at tails
          exact absurd tails.symm (render_not_closing numerals v' _ _)
      | cons v rest =>
        cases items' with
        | nil =>
          rw [render,render] at same
          have tails : render numerals v ++ render_items numerals rest ++ r = ']' :: r' := (List.cons.inj same).2
          rw [List.append_assoc] at tails
          exact absurd tails (render_not_closing numerals v _ _)
        | cons v' rest' =>
          rw [render,render,List.cons_append,List.cons_append,List.cons.injEq,List.append_assoc,List.append_assoc] at same
          obtain ⟨rfl,later⟩ := render_prefix v v' _ _ (items_end numerals rest r) (items_end numerals rest' r') same.2
          obtain ⟨rfl,after⟩ := items_prefix rest rest' r r' later
          exact ⟨rfl,after⟩
    | bool b => cases b <;> cases kinds
    | _ => cases kinds
  | object members =>
    cases w with
    | object members' =>
      cases members with
      | nil =>
        cases members' with
        | nil => simpa [render] using same
        | cons member' rest' => simp [render,quoted] at same
      | cons member rest =>
        cases members' with
        | nil => simp [render,quoted] at same
        | cons member' rest' =>
          obtain ⟨name,v⟩ := member
          obtain ⟨name',v'⟩ := member'
          rw [render,render,List.cons_append,List.cons_append,List.cons.injEq,List.append_assoc,List.append_assoc,
            List.cons_append,List.cons_append,List.append_assoc,List.append_assoc] at same
          obtain ⟨rfl,value⟩ := quoted_prefix same.2
          obtain ⟨rfl,later⟩ := render_prefix v v' _ _ (members_end numerals rest r) (members_end numerals rest' r')
            (List.cons.inj value).2
          obtain ⟨rfl,after⟩ := members_prefix rest rest' r r' later
          exact ⟨rfl,after⟩
    | bool b => cases b <;> cases kinds
    | _ => cases kinds

theorem items_prefix : ∀ (items items' : List (Value N)) (r r' : List Char),
    render_items numerals items ++ r = render_items numerals items' ++ r' → items = items' ∧ r = r' := by
  intro items items' r r' same
  cases items with
  | nil =>
    cases items' with
    | nil => simpa [render_items] using same
    | cons v' rest' => simp [render_items] at same
  | cons v rest =>
    cases items' with
    | nil => simp [render_items] at same
    | cons v' rest' =>
      rw [render_items,render_items,List.cons_append,List.cons_append,List.cons.injEq,List.append_assoc,
        List.append_assoc] at same
      obtain ⟨rfl,later⟩ := render_prefix v v' _ _ (items_end numerals rest r) (items_end numerals rest' r') same.2
      obtain ⟨rfl,after⟩ := items_prefix rest rest' r r' later
      exact ⟨rfl,after⟩

theorem members_prefix : ∀ (members members' : List (String × Value N)) (r r' : List Char),
    render_members numerals members ++ r = render_members numerals members' ++ r' → members = members' ∧ r = r' := by
  intro members members' r r' same
  cases members with
  | nil =>
    cases members' with
    | nil => simpa [render_members] using same
    | cons member' rest' => simp [render_members] at same
  | cons member rest =>
    cases members' with
    | nil => simp [render_members] at same
    | cons member' rest' =>
      obtain ⟨name,v⟩ := member
      obtain ⟨name',v'⟩ := member'
      rw [render_members,render_members,List.cons_append,List.cons_append,List.cons.injEq,List.append_assoc,
        List.append_assoc,List.cons_append,List.cons_append,List.append_assoc,List.append_assoc] at same
      obtain ⟨rfl,value⟩ := quoted_prefix same.2
      obtain ⟨rfl,later⟩ := render_prefix v v' _ _ (members_end numerals rest r) (members_end numerals rest' r')
        (List.cons.inj value).2
      obtain ⟨rfl,after⟩ := members_prefix rest rest' r r' later
      exact ⟨rfl,after⟩

end

theorem render_injective : Function.Injective (render numerals) := by
  intro v w same
  have ends : Ends [] := fun c first => by cases first
  obtain ⟨equal,_⟩ := render_prefix numerals v w [] [] ends ends (by rw [same])
  exact equal

end Maxio.JsonValues
