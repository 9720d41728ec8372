import Mathlib.Data.List.Basic
import Aaf.Text

/-!
# JSON texts are unambiguous

The compact JSON text of a value, as a serializer of records writes it: no white space,
fields in the order of the record, strings with the usual escapes. Numbers are naturals,
which is all that a signed body holds.

No text stands for two values: `write_injective`. The proof reads from the left. What
follows a value never continues it, so that equal texts with something after them are equal
values with equal rests: `write_append`.
-/

namespace JsonText

/-- What a serializer is given. -/
inductive Value : Type where
  | null : Value
  | nat (n : ℕ) : Value
  | str (s : String) : Value
  | seq (items : List Value) : Value
  | struct (fields : List (String × Value)) : Value

/-- A list of texts. -/
def Value.strings {α : Type} (text : α → String) (items : List α) : Value :=
  .seq (items.map fun item => .str (text item))

/-- A text that may be missing. -/
def Value.optional {α : Type} (text : α → String) : Option α → Value
  | none => .null
  | some a => .str (text a)

theorem Value.strings_inj {α : Type} {text : α → String} (htext : Function.Injective text)
    {items items' : List α} :
    Value.strings text items = Value.strings text items' ↔ items = items' := by
  have hstr : Function.Injective fun item => Value.str (text item) :=
    fun item item' h => htext (Value.str.inj h)
  rw [Value.strings, Value.strings, Value.seq.injEq, (List.map_injective_iff.mpr hstr).eq_iff]

theorem Value.optional_inj {α : Type} {text : α → String} (htext : Function.Injective text)
    {a a' : Option α} : Value.optional text a = Value.optional text a' ↔ a = a' := by
  cases a <;> cases a' <;> simp [Value.optional, htext.eq_iff]

/-! ## Writing -/

/-- A character inside of a string: quotes, backslashes and control characters are
escaped. -/
def escape (c : Char) : List Char :=
  if c = '"' then ['\\', '"']
  else if c = '\\' then ['\\', '\\']
  else if c = '\x08' then ['\\', 'b']
  else if c = '\t' then ['\\', 't']
  else if c = '\n' then ['\\', 'n']
  else if c = '\x0c' then ['\\', 'f']
  else if c = '\r' then ['\\', 'r']
  else if c.toNat < 0x20 then
    ['\\', 'u', '0', '0', Nat.digitChar (c.toNat / 16), Nat.digitChar (c.toNat % 16)]
  else [c]

/-- The characters of a string, and the quote that closes it. -/
def writeChars : List Char → List Char
  | [] => ['"']
  | c :: cs => escape c ++ writeChars cs

/-- A string in quotes. -/
def quote (s : String) : List Char := '"' :: writeChars s.toList

mutual

/-- The text of a value. -/
def write : Value → List Char
  | .null => ['n', 'u', 'l', 'l']
  | .nat n => Nat.toDigits 10 n
  | .str s => quote s
  | .seq [] => ['[', ']']
  | .seq (v :: items) => '[' :: (write v ++ writeItems items)
  | .struct [] => ['{', '}']
  | .struct ((name, v) :: fields) => '{' :: (quote name ++ ':' :: (write v ++ writeFields fields))

/-- The items after the first, and the closing bracket. -/
def writeItems : List Value → List Char
  | [] => [']']
  | v :: items => ',' :: (write v ++ writeItems items)

/-- The fields after the first, and the closing brace. -/
def writeFields : List (String × Value) → List Char
  | [] => ['}']
  | (name, v) :: fields => ',' :: (quote name ++ ':' :: (write v ++ writeFields fields))

end

/-! ## Strings -/

/-- The characters that are not written as they are. -/
def special : List Char := '"' :: '\\' :: (List.range 0x20).map Char.ofNat

theorem escape_of_notMem {c : Char} (h : c ∉ special) : escape c = [c] := by
  have hcontrol : ¬ c.toNat < 0x20 := by
    intro hlt
    refine h (List.mem_cons_of_mem _ (List.mem_cons_of_mem _ ?_))
    exact List.mem_map.mpr ⟨c.toNat, List.mem_range.mpr hlt, Char.ofNat_toNat c⟩
  have hne : ∀ d ∈ special, c ≠ d := by
    rintro d hd rfl
    exact h hd
  rw [escape, if_neg (hne _ (by decide)), if_neg (hne _ (by decide)), if_neg (hne _ (by decide)),
    if_neg (hne _ (by decide)), if_neg (hne _ (by decide)), if_neg (hne _ (by decide)),
    if_neg (hne _ (by decide)), if_neg hcontrol]

theorem head_escape_of_mem {c : Char} (h : c ∈ special) : ∃ rest, escape c = '\\' :: rest := by
  have hall : (special.all fun c => decide ((escape c).head? = some '\\')) = true := by
    decide +kernel
  exact List.head?_eq_some_iff.mp (of_decide_eq_true (List.all_eq_true.mp hall c h))

/-- No escape is the start of another. -/
theorem eq_of_escape_starts {c d : Char} (h : escape c <+: escape d) : c = d := by
  have hspecial : (special.all fun c => special.all fun d =>
      !(escape c).isPrefixOf (escape d) || decide (c = d)) = true := by
    decide +kernel
  have hbackslash : '\\' ∈ special := by decide
  by_cases hc : c ∈ special
  · by_cases hd : d ∈ special
    · have hcd := List.all_eq_true.mp (List.all_eq_true.mp hspecial c hc) d hd
      rw [List.isPrefixOf_iff_prefix.mpr h] at hcd
      simpa using hcd
    · obtain ⟨rest, hrest⟩ := head_escape_of_mem hc
      rw [hrest, escape_of_notMem hd, List.cons_prefix_cons] at h
      rw [← h.1] at hd
      exact absurd hbackslash hd
  · rw [escape_of_notMem hc] at h
    by_cases hd : d ∈ special
    · obtain ⟨rest, hrest⟩ := head_escape_of_mem hd
      rw [hrest, List.cons_prefix_cons] at h
      rw [h.1] at hc
      exact absurd hbackslash hc
    · rw [escape_of_notMem hd, List.cons_prefix_cons] at h
      exact h.1

theorem escape_append {c d : Char} {rest rest' : List Char}
    (h : escape c ++ rest = escape d ++ rest') : c = d ∧ rest = rest' := by
  have hcd : c = d := by
    rcases List.prefix_or_prefix_of_prefix (List.prefix_append (escape c) rest)
      (h ▸ List.prefix_append (escape d) rest') with hcd | hdc
    · exact eq_of_escape_starts hcd
    · exact (eq_of_escape_starts hdc).symm
  subst hcd
  exact ⟨rfl, List.append_cancel_left h⟩

/-- No escape starts with a quote. -/
theorem escape_ne_quote {c : Char} {rest rest' : List Char} : escape c ++ rest ≠ '"' :: rest' := by
  intro h
  by_cases hc : c ∈ special
  · obtain ⟨more, hmore⟩ := head_escape_of_mem hc
    rw [hmore] at h
    cases h
  · rw [escape_of_notMem hc] at h
    cases h
    exact hc List.mem_cons_self

theorem writeChars_append {cs cs' rest rest' : List Char}
    (h : writeChars cs ++ rest = writeChars cs' ++ rest') : cs = cs' ∧ rest = rest' := by
  induction cs generalizing cs' with
  | nil =>
    cases cs' with
    | nil =>
      cases h
      exact ⟨rfl, rfl⟩
    | cons c' cs' =>
      rw [writeChars, writeChars, List.append_assoc] at h
      exact absurd h.symm escape_ne_quote
  | cons c cs ih =>
    cases cs' with
    | nil =>
      rw [writeChars, writeChars, List.append_assoc] at h
      exact absurd h escape_ne_quote
    | cons c' cs' =>
      rw [writeChars, writeChars, List.append_assoc, List.append_assoc] at h
      obtain ⟨rfl, hrest⟩ := escape_append h
      obtain ⟨rfl, rfl⟩ := ih hrest
      exact ⟨rfl, rfl⟩

theorem quote_append {s s' : String} {rest rest' : List Char}
    (h : quote s ++ rest = quote s' ++ rest') : s = s' ∧ rest = rest' := by
  obtain ⟨hchars, hrest⟩ := writeChars_append (List.cons.inj h).2
  exact ⟨String.toList_inj.mp hchars, hrest⟩

/-! ## Values -/

/-- A rest that does not go on with a number. -/
def Stops (rest : List Char) : Prop := ∀ c ∈ rest.head?, c.isDigit = false

theorem stops_cons {c : Char} {rest : List Char} (h : c.isDigit = false) : Stops (c :: rest) := by
  intro d hd
  cases hd
  exact h

theorem toDigits_append {n n' : ℕ} {rest rest' : List Char} (hrest : Stops rest)
    (hrest' : Stops rest') (h : Nat.toDigits 10 n ++ rest = Nat.toDigits 10 n' ++ rest') :
    n = n' ∧ rest = rest' := by
  have htake : ∀ {n rest}, Stops rest →
      (Nat.toDigits 10 n ++ rest).takeWhile Char.isDigit = Nat.toDigits 10 n := by
    intro n rest hstops
    rw [List.takeWhile_append_of_pos fun c hc => Text.isDigit_of_mem_toDigits hc]
    rcases rest with _ | ⟨c, rest⟩
    · simp
    · rw [List.takeWhile_cons_of_neg (by simp [hstops c rfl]), List.append_nil]
  have hdigits : Nat.toDigits 10 n = Nat.toDigits 10 n' := by
    rw [← htake hrest, h, htake hrest']
  rw [hdigits] at h
  exact ⟨Text.toDigits_injective hdigits, List.append_cancel_left h⟩

/-- The kinds of values, told apart by their first character. -/
def kind : Value → Char
  | .null => 'n'
  | .nat _ => '0'
  | .str _ => '"'
  | .seq _ => '['
  | .struct _ => '{'

/-- A digit stands for every digit. -/
def kindOf (c : Char) : Char := if c.isDigit then '0' else c

theorem head?_write (v : Value) (rest : List Char) :
    (write v ++ rest).head?.map kindOf = some (kind v) := by
  cases v with
  | null => rfl
  | nat n =>
    obtain ⟨c, cs, hdigits⟩ := List.exists_cons_of_ne_nil (Nat.toDigits_ne_nil (n := n) (b := 10))
    have hdigit : c.isDigit = true :=
      Text.isDigit_of_mem_toDigits (hdigits ▸ List.mem_cons_self)
    rw [write, hdigits]
    simp [kindOf, kind, hdigit]
  | str s => rfl
  | seq items => cases items <;> rw [write] <;> rfl
  | struct fields => rcases fields with _ | ⟨⟨name, v⟩, fields⟩ <;> rw [write] <;> rfl

theorem kind_eq_of_write {v v' : Value} {rest rest' : List Char}
    (h : write v ++ rest = write v' ++ rest') : kind v = kind v' := by
  have hhead := head?_write v rest
  rw [h, head?_write] at hhead
  exact (Option.some.inj hhead).symm

/-- No value starts with a closing bracket. -/
theorem write_ne_close (v : Value) (rest rest' : List Char) : write v ++ rest ≠ ']' :: rest' := by
  intro h
  have hhead := head?_write v rest
  rw [h] at hhead
  cases v <;> simp [kindOf, kind] at hhead

theorem stops_writeItems (items : List Value) (rest : List Char) :
    Stops (writeItems items ++ rest) := by
  cases items <;> rw [writeItems] <;> exact stops_cons (by decide)

theorem stops_writeFields (fields : List (String × Value)) (rest : List Char) :
    Stops (writeFields fields ++ rest) := by
  rcases fields with _ | ⟨⟨name, v⟩, fields⟩ <;> rw [writeFields] <;> exact stops_cons (by decide)

mutual

/-- **Equal texts with something after them are equal values with equal rests.** -/
theorem write_append (v v' : Value) {rest rest' : List Char} (hrest : Stops rest)
    (hrest' : Stops rest') (h : write v ++ rest = write v' ++ rest') : v = v' ∧ rest = rest' := by
  have hkind := kind_eq_of_write h
  match v, v' with
  | .null, .null => exact ⟨rfl, List.append_cancel_left h⟩
  | .nat n, .nat n' =>
    rw [write, write] at h
    obtain ⟨rfl, rfl⟩ := toDigits_append hrest hrest' h
    exact ⟨rfl, rfl⟩
  | .str s, .str s' =>
    rw [write, write] at h
    obtain ⟨rfl, rfl⟩ := quote_append h
    exact ⟨rfl, rfl⟩
  | .seq [], .seq [] => exact ⟨rfl, List.append_cancel_left h⟩
  | .seq [], .seq (v' :: items') =>
    rw [write, write, List.cons_append, List.cons_append, List.cons_append,
      List.append_assoc] at h
    exact absurd (List.cons.inj h).2.symm (write_ne_close v' _ _)
  | .seq (v :: items), .seq [] =>
    rw [write, write, List.cons_append, List.append_assoc] at h
    exact absurd (List.cons.inj h).2 (write_ne_close v _ _)
  | .seq (v :: items), .seq (v' :: items') =>
    -- After the bracket the first item stands as the others do after their commas.
    rw [write, write] at h
    have hitems : writeItems (v :: items) ++ rest = writeItems (v' :: items') ++ rest' := by
      rw [writeItems, writeItems]
      exact congrArg _ (List.cons.inj h).2
    obtain ⟨hitems, hrest⟩ := writeItems_append _ _ hitems
    exact ⟨congrArg Value.seq hitems, hrest⟩
  | .struct [], .struct [] => exact ⟨rfl, List.append_cancel_left h⟩
  | .struct [], .struct (_ :: _) =>
    rw [write, write] at h
    cases (List.cons.inj h).2
  | .struct (_ :: _), .struct [] =>
    rw [write, write] at h
    cases (List.cons.inj h).2
  | .struct ((name, v) :: fields), .struct ((name', v') :: fields') =>
    rw [write, write] at h
    have hfields : writeFields ((name, v) :: fields) ++ rest =
        writeFields ((name', v') :: fields') ++ rest' := by
      rw [writeFields, writeFields]
      exact congrArg _ (List.cons.inj h).2
    obtain ⟨hfields, hrest⟩ := writeFields_append _ _ hfields
    exact ⟨congrArg Value.struct hfields, hrest⟩

theorem writeItems_append (items items' : List Value) {rest rest' : List Char}
    (h : writeItems items ++ rest = writeItems items' ++ rest') :
    items = items' ∧ rest = rest' := by
  match items, items' with
  | [], [] => exact ⟨rfl, List.append_cancel_left h⟩
  | [], _ :: _ =>
    rw [writeItems, writeItems] at h
    cases h
  | _ :: _, [] =>
    rw [writeItems, writeItems] at h
    cases h
  | v :: items, v' :: items' =>
    rw [writeItems, writeItems, List.cons_append, List.cons_append, List.append_assoc,
      List.append_assoc] at h
    obtain ⟨rfl, hitems⟩ := write_append v v' (stops_writeItems items rest)
      (stops_writeItems items' rest') (List.cons.inj h).2
    obtain ⟨rfl, rfl⟩ := writeItems_append items items' hitems
    exact ⟨rfl, rfl⟩

theorem writeFields_append (fields fields' : List (String × Value)) {rest rest' : List Char}
    (h : writeFields fields ++ rest = writeFields fields' ++ rest') :
    fields = fields' ∧ rest = rest' := by
  match fields, fields' with
  | [], [] => exact ⟨rfl, List.append_cancel_left h⟩
  | [], _ :: _ =>
    rw [writeFields, writeFields] at h
    cases h
  | _ :: _, [] =>
    rw [writeFields, writeFields] at h
    cases h
  | (name, v) :: fields, (name', v') :: fields' =>
    rw [writeFields, writeFields, List.cons_append, List.cons_append, List.append_assoc,
      List.append_assoc, List.cons_append, List.cons_append, List.append_assoc,
      List.append_assoc] at h
    obtain ⟨rfl, hvalue⟩ := quote_append (List.cons.inj h).2
    obtain ⟨rfl, hfields⟩ := write_append v v' (stops_writeFields fields rest)
      (stops_writeFields fields' rest') (List.cons.inj hvalue).2
    obtain ⟨rfl, rfl⟩ := writeFields_append fields fields' hfields
    exact ⟨rfl, rfl⟩

end

/-- **No text stands for two values.** -/
theorem write_injective : Function.Injective write := by
  intro v v' h
  have hnil : Stops [] := by
    intro c hc
    cases hc
  exact (write_append v v' hnil hnil (by rw [h])).1

end JsonText
