import Mathlib.Data.List.Basic

/-!
# `Lib.Json` — JSON texts, written and read

`Json.stringify` writes a value without white space, `Json.parse` reads a text, with white space
between the tokens. Both work on lists of characters; the reader is a recursive descent with fuel, of
which the length of the text is enough. `parse_stringify`: what was written is read back.

Numbers are left out, and so are escaped surrogates (a `Char` is none).
-/

/-- A JSON value. The members of an object are in the order of the text, and a name may occur twice, as
    in a text. -/
inductive Json where
  | null
  | bool (b : Bool)
  | str (s : String)
  | arr (items : List Json)
  | obj (members : List (String × Json))

namespace Json

/-! ## Writing

Values are written without white space. In a string only the quotation mark, the backslash and the
control characters are escaped, as `JSON.stringify` does. -/

def hexDigit (n : Nat) : Char := if n < 10 then Char.ofNat (48 + n) else Char.ofNat (87 + n)

/-- One character inside a string. -/
def quoteChar (c : Char) : List Char :=
  if c = '"' then ['\\', '"']
  else if c = '\\' then ['\\', '\\']
  else if c.toNat = 8 then ['\\', 'b']
  else if c.toNat = 9 then ['\\', 't']
  else if c.toNat = 10 then ['\\', 'n']
  else if c.toNat = 12 then ['\\', 'f']
  else if c.toNat = 13 then ['\\', 'r']
  else if c.toNat < 32 then ['\\', 'u', '0', '0', hexDigit (c.toNat / 16), hexDigit (c.toNat % 16)]
  else [c]

def quote (s : String) : List Char := '"' :: (s.toList.flatMap quoteChar ++ ['"'])

mutual

def print : Json → List Char
  | .null       => ['n', 'u', 'l', 'l']
  | .bool true  => ['t', 'r', 'u', 'e']
  | .bool false => ['f', 'a', 'l', 's', 'e']
  | .str s      => quote s
  | .arr l      => '[' :: (printItems l ++ [']'])
  | .obj l      => '{' :: (printMembers l ++ ['}'])

def printItems : List Json → List Char
  | []          => []
  | [v]         => print v
  | v :: w :: l => print v ++ ',' :: printItems (w :: l)

def printMembers : List (String × Json) → List Char
  | []               => []
  | [(k, v)]         => quote k ++ ':' :: print v
  | (k, v) :: m :: l => quote k ++ ':' :: (print v ++ ',' :: printMembers (m :: l))

end

def stringify (v : Json) : String := String.ofList (print v)

/-! ## Reading

A recursive descent over the characters. Each reader returns what is behind the value it has read, and
each nested reader gets one unit of fuel less; that there is always fuel enough is part of the round
trip. -/

def isSpace (c : Char) : Bool := c = ' ' || c.toNat = 9 || c.toNat = 10 || c.toNat = 13

def skipSpace (cs : List Char) : List Char := cs.dropWhile isSpace

def hexValue (c : Char) : Option Nat :=
  if '0' ≤ c ∧ c ≤ '9' then some (c.toNat - 48)
  else if 'a' ≤ c ∧ c ≤ 'f' then some (c.toNat - 87)
  else if 'A' ≤ c ∧ c ≤ 'F' then some (c.toNat - 55)
  else none

/-- The character four hexadecimal digits denote, unless it is a surrogate. -/
def hexChar (a b c d : Char) : Option Char := do
  let n := (((← hexValue a) * 16 + (← hexValue b)) * 16 + (← hexValue c)) * 16 + (← hexValue d)
  if 0xD800 ≤ n ∧ n ≤ 0xDFFF then none else some (Char.ofNat n)

/-- The character a backslash and `e` denote. -/
def escaped (e : Char) : Option Char :=
  if e = '"' ∨ e = '\\' ∨ e = '/' then some e
  else if e = 'b' then some (Char.ofNat 8)
  else if e = 't' then some (Char.ofNat 9)
  else if e = 'n' then some (Char.ofNat 10)
  else if e = 'f' then some (Char.ofNat 12)
  else if e = 'r' then some (Char.ofNat 13)
  else none

/-- Put a character before the string read. -/
def prepend (c : Char) (r : List Char × List Char) : List Char × List Char := (c :: r.1, r.2)

/-- A string after its opening quotation mark, and the text after its closing one. `none` is a text that
    ends too early, has an escape that does not exist, or a control character. -/
def unquote : List Char → Option (List Char × List Char)
  | [] => none
  | '"' :: cs => some ([], cs)
  | '\\' :: 'u' :: a :: b :: c :: d :: cs => do
      let x ← hexChar a b c d
      return prepend x (← unquote cs)
  | '\\' :: e :: cs => do
      let x ← escaped e
      return prepend x (← unquote cs)
  | c :: cs => if c.toNat < 32 then none else (unquote cs).map (prepend c)

mutual

def value : Nat → List Char → Option (Json × List Char)
  | 0, _ => none
  | n + 1, cs =>
      match skipSpace cs with
      | 'n' :: 'u' :: 'l' :: 'l' :: cs => some (.null, cs)
      | 't' :: 'r' :: 'u' :: 'e' :: cs => some (.bool true, cs)
      | 'f' :: 'a' :: 'l' :: 's' :: 'e' :: cs => some (.bool false, cs)
      | '"' :: cs => (unquote cs).map fun r => (.str (String.ofList r.1), r.2)
      | '[' :: cs =>
          match skipSpace cs with
          | ']' :: cs => some (.arr [], cs)
          | cs        => (items n cs).map fun r => (.arr r.1, r.2)
      | '{' :: cs =>
          match skipSpace cs with
          | '}' :: cs => some (.obj [], cs)
          | cs        => (members n cs).map fun r => (.obj r.1, r.2)
      | _ => none

/-- The items of an array, up to its closing bracket. -/
def items : Nat → List Char → Option (List Json × List Char)
  | 0, _ => none
  | n + 1, cs => do
      let (v, cs) ← value n cs
      match skipSpace cs with
      | ',' :: cs => (items n cs).map fun r => (v :: r.1, r.2)
      | ']' :: cs => some ([v], cs)
      | _         => none

/-- The members of an object, up to its closing brace. -/
def members : Nat → List Char → Option (List (String × Json) × List Char)
  | 0, _ => none
  | n + 1, cs =>
      match skipSpace cs with
      | '"' :: cs => do
          let (k, cs) ← unquote cs
          match skipSpace cs with
          | ':' :: cs => do
              let (v, cs) ← value n cs
              match skipSpace cs with
              | ',' :: cs => (members n cs).map fun r => ((String.ofList k, v) :: r.1, r.2)
              | '}' :: cs => some ([(String.ofList k, v)], cs)
              | _         => none
          | _ => none
      | _ => none

end

/-- `JSON.parse` (`none`: it throws). -/
def parse (text : String) : Option Json :=
  match value (text.toList.length + 1) text.toList with
  | some (v, cs) => if skipSpace cs = [] then some v else none
  | none         => none

/-- A member of an object; the last one counts. -/
def field (v : Json) (name : String) : Option Json :=
  match v with
  | .obj l => (l.reverse.find? fun m => m.1 = name).map Prod.snd
  | _      => none

/-! ## Round trip: strings

One character at a time: the texts that `quoteChar` writes begin in ways that tell them apart, and the
reader takes back just the character that was written. -/

theorem hexValue_hexDigit : ∀ n, n < 16 → hexValue (hexDigit n) = some n := by decide

/-- A control character is read back from its four digits. -/
theorem hexChar_control {c : Char} (h : c.toNat < 32) :
    hexChar '0' '0' (hexDigit (c.toNat / 16)) (hexDigit (c.toNat % 16)) = some c := by
  have hzero : hexValue '0' = some 0 := by decide
  have hhigh := hexValue_hexDigit (c.toNat / 16) (by omega)
  have hlow := hexValue_hexDigit (c.toNat % 16) (by omega)
  have hn : ((0 * 16 + 0) * 16 + c.toNat / 16) * 16 + c.toNat % 16 = c.toNat := by omega
  simp only [hexChar, hzero, hhigh, hlow, Option.bind_eq_bind, Option.bind_some, hn]
  rw [if_neg (by omega), Char.ofNat_toNat]

/-- A backslash and a letter other than `u`. -/
theorem unquote_escaped {e c : Char} (hu : e ≠ 'u') (he : escaped e = some c) (cs : List Char) :
    unquote ('\\' :: e :: cs) = (unquote cs).map (prepend c) := by
  rw [unquote]
  · rw [he]
    cases unquote cs <;> rfl
  · intro _ _ _ _ _ h
    exact absurd h hu

/-- A character that stands for itself. -/
theorem unquote_plain {c : Char} (hquote : c ≠ '"') (hslash : c ≠ '\\') (hcontrol : ¬ c.toNat < 32)
    (cs : List Char) :
    unquote (c :: cs) = (unquote cs).map (prepend c) := by
  rw [unquote]
  · rw [if_neg hcontrol]
  · exact hquote
  · intro _ _ _ _ _ h _
    exact hslash h
  · intro _ _ h _
    exact hslash h

/-- **One character** is read back, whether it was escaped or not. -/
theorem unquote_quoteChar (c : Char) (cs : List Char) :
    unquote (quoteChar c ++ cs) = (unquote cs).map (prepend c) := by
  have hletter : ∀ e n, e ≠ 'u' → escaped e = some (Char.ofNat n) → c.toNat = n →
      unquote ('\\' :: e :: cs) = (unquote cs).map (prepend c) := by
    intro e n hu he hn
    rw [← hn, Char.ofNat_toNat] at he
    exact unquote_escaped hu he cs
  unfold quoteChar
  split
  · next h =>
    subst h
    exact unquote_escaped (by decide) rfl cs
  · next hquote =>
    split
    · next h =>
      subst h
      exact unquote_escaped (by decide) rfl cs
    · next hslash =>
      split
      · next h => exact hletter 'b' 8 (by decide) rfl h
      split
      · next h => exact hletter 't' 9 (by decide) rfl h
      split
      · next h => exact hletter 'n' 10 (by decide) rfl h
      split
      · next h => exact hletter 'f' 12 (by decide) rfl h
      split
      · next h => exact hletter 'r' 13 (by decide) rfl h
      split
      · next h =>
        show unquote ('\\' :: 'u' :: '0' :: '0' :: hexDigit _ :: hexDigit _ :: cs) = _
        rw [unquote, hexChar_control h]
        cases unquote cs <;> rfl
      · next h => exact unquote_plain hquote hslash h cs

/-- **A string** is read back, and what follows it is left over. -/
theorem unquote_quote (l : List Char) (cs : List Char) :
    unquote (l.flatMap quoteChar ++ '"' :: cs) = some (l, cs) := by
  induction l with
  | nil => rfl
  | cons c l ih =>
      rw [List.flatMap_cons, List.append_assoc, unquote_quoteChar, ih]
      rfl

/-! ## Round trip: values

The readers of values, items and members call each other, so they are treated together: `ReadsBack n`
says that with fuel `n` all three read back every text that is short enough, and the induction is on
`n`. -/

/-- A text begins with a character that is neither white space nor a closing bracket. -/
def Begins (cs : List Char) : Prop := ∃ c r, cs = c :: r ∧ isSpace c = false ∧ c ≠ ']' ∧ c ≠ '}'

theorem Begins.append {cs : List Char} (h : Begins cs) (r : List Char) : Begins (cs ++ r) := by
  obtain ⟨c, r', rfl, hrest⟩ := h
  exact ⟨c, r' ++ r, rfl, hrest⟩

theorem Begins.skipSpace {cs : List Char} (h : Begins cs) : skipSpace cs = cs := by
  obtain ⟨c, r, rfl, hspace, -⟩ := h
  rw [Json.skipSpace, List.dropWhile_cons, hspace]
  rfl

theorem begins_quote (s : String) : Begins (quote s) := ⟨'"', _, rfl, by decide, by decide, by decide⟩

theorem begins_print (v : Json) : Begins (print v) := by
  cases v with
  | null => exact ⟨_, _, rfl, by decide, by decide, by decide⟩
  | bool b => cases b <;> exact ⟨_, _, rfl, by decide, by decide, by decide⟩
  | str s => exact begins_quote s
  | arr l => exact ⟨_, _, rfl, by decide, by decide, by decide⟩
  | obj l => exact ⟨_, _, rfl, by decide, by decide, by decide⟩

theorem begins_printItems (v : Json) (l : List Json) : Begins (printItems (v :: l)) := by
  cases l with
  | nil => exact begins_print v
  | cons w l => exact (begins_print v).append _

theorem begins_printMembers (m : String × Json) (l : List (String × Json)) :
    Begins (printMembers (m :: l)) := by
  cases l with
  | nil => exact (begins_quote m.1).append _
  | cons m' l => exact (begins_quote m.1).append _

/-- A text that begins an item is not the end of an array. -/
theorem value_arr {cs : List Char} (h : Begins cs) (n : Nat) :
    value (n + 1) ('[' :: cs) = (items n cs).map fun r => (.arr r.1, r.2) := by
  have hspace : skipSpace ('[' :: cs) = '[' :: cs := rfl
  obtain ⟨c, r, rfl, hc⟩ := h
  have hskip : skipSpace (c :: r) = c :: r := Begins.skipSpace ⟨c, r, rfl, hc⟩
  rw [value, hspace]
  simp only [hskip]
  split
  · next hbracket => exact absurd (List.cons.inj hbracket).1 hc.2.1
  · rfl

theorem value_obj {cs : List Char} (h : Begins cs) (n : Nat) :
    value (n + 1) ('{' :: cs) = (members n cs).map fun r => (.obj r.1, r.2) := by
  have hspace : skipSpace ('{' :: cs) = '{' :: cs := rfl
  obtain ⟨c, r, rfl, hc⟩ := h
  have hskip : skipSpace (c :: r) = c :: r := Begins.skipSpace ⟨c, r, rfl, hc⟩
  rw [value, hspace]
  simp only [hskip]
  split
  · next hbrace => exact absurd (List.cons.inj hbrace).1 hc.2.2
  · rfl

/-- With fuel `n`, each reader reads back the texts it has fuel for. -/
structure ReadsBack (n : Nat) : Prop where
  value   : ∀ v cs, (print v).length ≤ n → value n (print v ++ cs) = some (v, cs)
  items   : ∀ v l cs, (printItems (v :: l)).length < n →
    items n (printItems (v :: l) ++ ']' :: cs) = some (v :: l, cs)
  members : ∀ m l cs, (printMembers (m :: l)).length < n →
    members n (printMembers (m :: l) ++ '}' :: cs) = some (m :: l, cs)

namespace ReadsBack

variable {n : Nat}

theorem value_succ (h : ReadsBack n) (v : Json) (cs : List Char) (hlen : (print v).length ≤ n + 1) :
    Json.value (n + 1) (print v ++ cs) = some (v, cs) := by
  cases v with
  | null => rfl
  | bool b => cases b <;> rfl
  | str s =>
      show (unquote (s.toList.flatMap quoteChar ++ ['"'] ++ cs)).map _ = _
      rw [List.append_assoc, List.singleton_append, unquote_quote, Option.map_some, String.ofList_toList]
  | arr l =>
      cases l with
      | nil => rfl
      | cons v l =>
          simp only [print, List.length_cons, List.length_append, List.length_nil] at hlen
          have hitems := h.items v l cs (by omega)
          have hbegins := (begins_printItems v l).append (']' :: cs)
          show Json.value (n + 1) ('[' :: (printItems (v :: l) ++ [']'] ++ cs)) = _
          rw [List.append_assoc, List.singleton_append, value_arr hbegins, hitems]
          rfl
  | obj l =>
      cases l with
      | nil => rfl
      | cons m l =>
          simp only [print, List.length_cons, List.length_append, List.length_nil] at hlen
          have hmembers := h.members m l cs (by omega)
          have hbegins := (begins_printMembers m l).append ('}' :: cs)
          show Json.value (n + 1) ('{' :: (printMembers (m :: l) ++ ['}'] ++ cs)) = _
          rw [List.append_assoc, List.singleton_append, value_obj hbegins, hmembers]
          rfl

theorem items_succ (h : ReadsBack n) (v : Json) (l : List Json) (cs : List Char)
    (hlen : (printItems (v :: l)).length < n + 1) :
    Json.items (n + 1) (printItems (v :: l) ++ ']' :: cs) = some (v :: l, cs) := by
  cases l with
  | nil =>
      have hvalue := h.value v (']' :: cs) (Nat.le_of_lt_succ hlen)
      show (Json.value n (print v ++ ']' :: cs)).bind _ = _
      rw [hvalue]
      rfl
  | cons w l =>
      simp only [printItems, List.length_append, List.length_cons] at hlen
      have hvalue := h.value v (',' :: (printItems (w :: l) ++ ']' :: cs)) (by omega)
      have hrest := h.items w l cs (by omega)
      show (Json.value n (print v ++ ',' :: printItems (w :: l) ++ ']' :: cs)).bind _ = _
      rw [List.append_assoc, List.cons_append, hvalue]
      show (Json.items n (printItems (w :: l) ++ ']' :: cs)).map _ = _
      rw [hrest]
      rfl

theorem members_succ (h : ReadsBack n) (m : String × Json) (l : List (String × Json)) (cs : List Char)
    (hlen : (printMembers (m :: l)).length < n + 1) :
    Json.members (n + 1) (printMembers (m :: l) ++ '}' :: cs) = some (m :: l, cs) := by
  obtain ⟨k, v⟩ := m
  cases l with
  | nil =>
      simp only [printMembers, List.length_append, List.length_cons] at hlen
      have hvalue := h.value v ('}' :: cs) (by omega)
      show (unquote (k.toList.flatMap quoteChar ++ ['"'] ++ ':' :: print v ++ '}' :: cs)).bind _ = _
      rw [List.append_assoc, List.append_assoc, List.singleton_append, unquote_quote]
      show (Json.value n (print v ++ '}' :: cs)).bind _ = _
      rw [hvalue, String.ofList_toList]
      rfl
  | cons w l =>
      simp only [printMembers, List.length_append, List.length_cons] at hlen
      have hvalue := h.value v (',' :: (printMembers (w :: l) ++ '}' :: cs)) (by omega)
      have hrest := h.members w l cs (by omega)
      show (unquote (k.toList.flatMap quoteChar ++ ['"'] ++
        ':' :: (print v ++ ',' :: printMembers (w :: l)) ++
        '}' :: cs)).bind _ = _
      rw [List.append_assoc, List.append_assoc, List.singleton_append, unquote_quote]
      show (Json.value n (print v ++ ',' :: printMembers (w :: l) ++ '}' :: cs)).bind _ = _
      rw [List.append_assoc, List.cons_append, hvalue]
      show (Json.members n (printMembers (w :: l) ++ '}' :: cs)).map _ = _
      rw [hrest, String.ofList_toList]
      rfl

end ReadsBack

/-- **The readers read back**: every nested reader has one unit of fuel less, and a text that is
    shorter. -/
theorem readsBack (n : Nat) : ReadsBack n := by
  induction n with
  | zero =>
      refine ⟨fun v cs hlen => ?_, fun v l cs hlen => absurd hlen (Nat.not_lt_zero _),
        fun m l cs hlen => absurd hlen (Nat.not_lt_zero _)⟩
      -- a value has at least one character
      obtain ⟨c, r, hprint, -⟩ := begins_print v
      rw [hprint] at hlen
      exact absurd hlen (Nat.not_succ_le_zero _)
  | succ n ih => exact ⟨ih.value_succ, ih.items_succ, ih.members_succ⟩

/-- **Round trip**: what `stringify` writes, `parse` reads back. -/
theorem parse_stringify (v : Json) : parse (stringify v) = some v := by
  have hvalue := (readsBack ((print v).length + 1)).value v [] (Nat.le_succ _)
  rw [List.append_nil] at hvalue
  rw [parse, stringify, String.toList_ofList, hvalue]
  rfl

theorem stringify_ne_empty (v : Json) : stringify v ≠ "" := by
  intro h
  obtain ⟨c, r, hprint, -⟩ := begins_print v
  have hnil := congrArg String.toList h
  rw [stringify, String.toList_ofList, hprint] at hnil
  cases hnil

end Json
