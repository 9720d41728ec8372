import Mathlib.Data.List.DropRight
import Mathlib.Data.List.Infix

/-!
# Rust string operations

The standard-library operations on `str` that the rest of the development
needs, on lists of scalar values so that they compute: Unicode white space,
`trim`, `split_whitespace`, `to_ascii_lowercase`, `starts_with`, `ends_with`,
`strip_prefix`, `strip_suffix`, `trim_start_matches`, `split`, `contains`, `rfind`,
`parse::<u32>`, `as_bytes`.

A text cut at a separator has no other cut there when the separator is missing before it
(`append_cons_inj_first`) or behind it (`rfind_append`). What `parse::<u32>` reads are
decimal digits, with a plus sign or without: `parseU32_eq_some_iff`.
-/

namespace Text

/-- `char::is_whitespace`: the Unicode `White_Space` property. -/
def isWhitespace (c : Char) : Bool :=
  let n := c.toNat
  (0x09 ≤ n && n ≤ 0x0D) || n == 0x20 || n == 0x85 || n == 0xA0 || n == 0x1680 ||
    (0x2000 ≤ n && n ≤ 0x200A) || n == 0x2028 || n == 0x2029 || n == 0x202F || n == 0x205F ||
    n == 0x3000

/-- `char::to_ascii_lowercase`: only `A`..`Z` move. -/
def toAsciiLowercase (c : Char) : Char :=
  if 'A'.toNat ≤ c.toNat ∧ c.toNat ≤ 'Z'.toNat then Char.ofNat (c.toNat + 32) else c

/-- `str::trim`. -/
def trim (s : String) : String :=
  String.ofList ((s.toList.dropWhile isWhitespace).rdropWhile isWhitespace)

/-- `str::split_whitespace`: the maximal runs of non-white-space characters. -/
def splitWhitespace (s : String) : List String :=
  ((s.toList.splitOnP isWhitespace).filter fun w => !w.isEmpty).map String.ofList

/-- `str::starts_with` for a string pattern. -/
def startsWith (s pat : String) : Bool := pat.toList.isPrefixOf s.toList

/-- `str::ends_with` for a string pattern. -/
def endsWith (s pat : String) : Bool := pat.toList.isSuffixOf s.toList

/-- `str::strip_prefix`. -/
def stripPrefix (s pat : String) : Option String :=
  if startsWith s pat then some (String.ofList (s.toList.drop pat.toList.length)) else none

/-- `str::strip_suffix`. -/
def stripSuffix (s pat : String) : Option String :=
  if endsWith s pat then
    some (String.ofList (s.toList.take (s.toList.length - pat.toList.length)))
  else none

/-- `str::contains` for a string pattern. -/
def contains (s pat : String) : Bool := s.toList.tails.any fun rest => pat.toList.isPrefixOf rest

/-- `str::rfind` for a character, counted in characters. -/
def rfind (s : String) (c : Char) : Option ℕ :=
  (s.toList.reverse.idxOf? c).map fun i => s.toList.length - 1 - i

/-- `str::trim_start_matches` for a character: every one in front goes. -/
def trimStartMatches (s : String) (c : Char) : String :=
  String.ofList (s.toList.dropWhile fun d => decide (d = c))

/-- `str::split` at a character. -/
def split (s : String) (c : Char) : List String := (s.toList.splitOn c).map String.ofList

/-- One more decimal digit, unless the number would leave `u32`. -/
def pushDigit (acc : ℕ) (c : Char) : Option ℕ :=
  if c.isDigit ∧ acc * 10 + (c.toNat - '0'.toNat) < UInt32.size then
    some (acc * 10 + (c.toNat - '0'.toNat))
  else none

/-- `str::parse::<u32>`, `None` for every error: an optional `+`, then at least
one decimal digit, with a value that fits. -/
def parseU32 (s : String) : Option UInt32 :=
  let digits := match s.toList with
    | '+' :: rest => rest
    | cs => cs
  if digits.isEmpty then none else (digits.foldlM pushDigit 0).map UInt32.ofNat

/-- `str::as_bytes`: the UTF-8 encoding. -/
def asBytes (s : String) : List UInt8 := s.toByteArray.data.toList

/-- `s.trim().is_empty()`. -/
def isBlank (s : String) : Bool := (trim s).isEmpty

/-- A text is blank when it has nothing but white space. -/
theorem isBlank_iff {s : String} : isBlank s = true ↔ ∀ c ∈ s.toList, isWhitespace c = true := by
  rw [isBlank, trim, String.isEmpty_iff, ← String.toList_inj, String.toList_ofList,
    String.toList_empty, List.rdropWhile_eq_nil_iff, ← List.dropWhile_eq_nil_iff,
    List.dropWhile_idempotent, List.dropWhile_eq_nil_iff]

/-- Trimming first does not change whether a text is blank. -/
theorem isBlank_trim (s : String) : isBlank (trim s) = isBlank s := by
  rw [Bool.eq_iff_iff, isBlank_iff, trim, String.toList_ofList, ← List.rdropWhile_eq_nil_iff,
    List.rdropWhile_idempotent, ← String.toList_empty, ← String.toList_ofList (l := List.rdropWhile _ _),
    String.toList_inj, ← String.isEmpty_iff]
  rfl

theorem startsWith_iff {s pat : String} :
    startsWith s pat = true ↔ pat.toList <+: s.toList := List.isPrefixOf_iff_prefix

theorem endsWith_iff {s pat : String} :
    endsWith s pat = true ↔ pat.toList <:+ s.toList := List.isSuffixOf_iff_suffix

theorem stripSuffix_eq_some_iff {s pat rest : String} :
    stripSuffix s pat = some rest ↔ s.toList = rest.toList ++ pat.toList := by
  rw [stripSuffix]
  by_cases h : endsWith s pat = true
  · have hcut := List.suffix_iff_eq_append.mp (endsWith_iff.mp h)
    rw [if_pos h, Option.some_inj, ← String.toList_inj, String.toList_ofList]
    refine ⟨fun hrest => ?_, fun hrest => ?_⟩
    · rw [← hrest]
      exact hcut.symm
    · rw [hrest] at hcut ⊢
      exact List.append_cancel_right hcut
  · rw [if_neg h]
    refine ⟨fun hnone => (by cases hnone), fun hrest => absurd (endsWith_iff.mpr ?_) h⟩
    rw [hrest]
    exact List.suffix_append _ _

theorem stripPrefix_eq_some_iff {s pat rest : String} :
    stripPrefix s pat = some rest ↔ s = pat ++ rest := by
  rw [stripPrefix, ← String.toList_inj, String.toList_append]
  by_cases h : startsWith s pat = true
  · have hcut := List.prefix_iff_eq_append.mp (startsWith_iff.mp h)
    rw [if_pos h, Option.some_inj, ← String.toList_inj, String.toList_ofList]
    refine ⟨fun hrest => ?_, fun hrest => ?_⟩
    · rw [← hrest]
      exact hcut.symm
    · rw [hrest, List.drop_left]
  · rw [if_neg h]
    refine ⟨fun hnone => (by cases hnone), fun hrest => absurd (startsWith_iff.mpr ?_) h⟩
    rw [hrest]
    exact List.prefix_append _ _

/-- Two cuts at a separator that neither front holds are one cut. -/
theorem append_cons_inj_first {α : Type} {c : α} {a a' b b' : List α} (ha : c ∉ a) (ha' : c ∉ a')
    (h : a ++ c :: b = a' ++ c :: b') : a = a' ∧ b = b' := by
  rcases List.append_eq_append_iff.mp h with ⟨rest, rfl, hrest⟩ | ⟨rest, rfl, hrest⟩
  · cases rest with
    | nil => exact ⟨(List.append_nil a).symm, (List.cons.inj hrest).2⟩
    | cons d rest =>
      rw [List.cons_append, List.cons.injEq] at hrest
      exact absurd (by rw [hrest.1]; simp) ha'
  · cases rest with
    | nil => exact ⟨List.append_nil a', (List.cons.inj hrest).2.symm⟩
    | cons d rest =>
      rw [List.cons_append, List.cons.injEq] at hrest
      exact absurd (by rw [hrest.1]; simp) ha

/-- The last place of a character is the one that no other follows. -/
theorem rfind_append {s : String} {c : Char} {a b : List Char} (hs : s.toList = a ++ c :: b)
    (hb : c ∉ b) : rfind s c = some a.length := by
  have hnone : List.findIdx? (fun d => d == c) b.reverse = none := by
    rw [List.findIdx?_eq_none_iff]
    intro d hd
    have hne : d ≠ c := by
      rintro rfl
      exact hb (List.mem_reverse.mp hd)
    exact beq_false_of_ne hne
  have hlast : s.toList.reverse.idxOf? c = some b.length := by
    rw [hs, List.reverse_append, List.reverse_cons, List.append_assoc, List.singleton_append,
      List.idxOf?, List.findIdx?_append, hnone, List.findIdx?_cons]
    simp
  rw [rfind, hlast, hs, Option.map_some, List.length_append, List.length_cons]
  congr 1
  omega

/-- Where a character is found, the text is cut and no other follows. -/
theorem rfind_eq_some {s : String} {c : Char} {i : ℕ} (h : rfind s c = some i) :
    c ∉ s.toList.drop (i + 1) ∧ s.toList = s.toList.take i ++ c :: s.toList.drop (i + 1) := by
  have hmem : c ∈ s.toList := by
    by_contra hnot
    have hnone : s.toList.reverse.idxOf? c = none :=
      List.idxOf?_eq_none_iff.mpr (fun hrev => hnot (List.mem_reverse.mp hrev))
    rw [rfind, hnone] at h
    cases h
  obtain ⟨b, a, hcut, hb⟩ := List.eq_append_cons_of_mem (List.mem_reverse.mpr hmem)
  have hs : s.toList = a.reverse ++ c :: b.reverse := by
    rw [← List.reverse_reverse s.toList, hcut]
    simp
  rw [rfind_append hs (fun hrev => hb (List.mem_reverse.mp hrev)), Option.some_inj] at h
  subst h
  rw [hs, List.take_left, List.drop_append, List.drop_of_length_le (Nat.le_succ _)]
  simpa using hb

/-- A number can be read off its decimal digits. -/
theorem toDigits_injective : Function.Injective (Nat.toDigits 10) := by
  intro n n' h
  rw [← Nat.ofDigitChars_ten_toDigits (n := n), h, Nat.ofDigitChars_ten_toDigits]

/-- Only digits stand in a decimal number. -/
theorem isDigit_of_mem_toDigits {n : ℕ} {c : Char} (h : c ∈ Nat.toDigits 10 n) :
    c.isDigit = true :=
  Nat.isDigit_of_mem_toDigits (by decide) (by decide) h

theorem notMem_toDigits {c : Char} (h : c.isDigit = false) (n : ℕ) : c ∉ Nat.toDigits 10 n := by
  intro hmem
  rw [isDigit_of_mem_toDigits hmem] at h
  cases h

/-- Reading digits never makes a number smaller. -/
theorem le_ofDigitChars (cs : List Char) (acc : ℕ) : acc ≤ Nat.ofDigitChars 10 cs acc := by
  induction cs generalizing acc with
  | nil => exact (Nat.ofDigitChars_nil).ge
  | cons c cs ih =>
    rw [Nat.ofDigitChars_cons]
    have := ih (10 * acc + (c.toNat - '0'.toNat))
    omega

/-- Digits are read in full as long as the number fits. -/
theorem foldlM_pushDigit {cs : List Char} (hdigits : ∀ c ∈ cs, c.isDigit = true) {acc : ℕ}
    (hsize : Nat.ofDigitChars 10 cs acc < UInt32.size) :
    cs.foldlM pushDigit acc = some (Nat.ofDigitChars 10 cs acc) := by
  induction cs generalizing acc with
  | nil => rfl
  | cons c cs ih =>
    rw [Nat.ofDigitChars_cons] at hsize ⊢
    have hle := le_ofDigitChars cs (10 * acc + (c.toNat - '0'.toNat))
    have hpush : pushDigit acc c = some (10 * acc + (c.toNat - '0'.toNat)) := by
      rw [pushDigit, Nat.mul_comm acc 10,
        if_pos ⟨hdigits c List.mem_cons_self, lt_of_le_of_lt hle hsize⟩]
    rw [List.foldlM_cons, hpush]
    exact ih (fun c hc => hdigits c (List.mem_cons_of_mem _ hc)) hsize

/-- Nothing but digits of a number that fits is read. -/
theorem of_foldlM_pushDigit {cs : List Char} {acc n : ℕ} (hacc : acc < UInt32.size)
    (h : cs.foldlM pushDigit acc = some n) :
    (∀ c ∈ cs, c.isDigit = true) ∧ Nat.ofDigitChars 10 cs acc = n ∧ n < UInt32.size := by
  induction cs generalizing acc with
  | nil =>
    obtain rfl : acc = n := Option.some.inj h
    exact ⟨fun c hc => absurd hc List.not_mem_nil, Nat.ofDigitChars_nil, hacc⟩
  | cons c cs ih =>
    rw [List.foldlM_cons, pushDigit] at h
    by_cases hpush : c.isDigit = true ∧ acc * 10 + (c.toNat - '0'.toNat) < UInt32.size
    · rw [if_pos hpush] at h
      obtain ⟨hdigits, hvalue, hsize⟩ := ih hpush.2 h
      refine ⟨?_, ?_, hsize⟩
      · intro d hd
        rcases List.mem_cons.mp hd with rfl | hd
        · exact hpush.1
        · exact hdigits d hd
      · rw [Nat.ofDigitChars_cons, Nat.mul_comm 10 acc]
        exact hvalue
    · rw [if_neg hpush] at h
      cases h

/-- The decimal digits of a `u32`, with any number of zeros in front. -/
structure IsNumeral (digits : List Char) (n : UInt32) : Prop where
  ne_nil : digits ≠ []
  isDigit : ∀ c ∈ digits, c.isDigit = true
  value : Nat.ofDigitChars 10 digits 0 = n.toNat

/-- A plus sign is no digit. -/
theorem IsNumeral.head_ne {digits rest : List Char} {n : UInt32} (h : IsNumeral digits n) :
    digits ≠ '+' :: rest := by
  rintro rfl
  exact absurd (h.isDigit '+' List.mem_cons_self) (by decide)

/-- What is read as a `u32`: its digits, with a plus sign or without. -/
theorem parseU32_eq_some_iff {s : String} {n : UInt32} :
    parseU32 s = some n ↔
      ∃ digits, (s.toList = digits ∨ s.toList = '+' :: digits) ∧ IsNumeral digits n := by
  have hread : ∀ digits : List Char,
      (if digits.isEmpty then none else (digits.foldlM pushDigit 0).map UInt32.ofNat) = some n ↔
        IsNumeral digits n := by
    intro digits
    rcases digits with _ | ⟨c, cs⟩
    · exact ⟨fun h => (Option.some_ne_none _ h.symm).elim, fun h => absurd rfl h.ne_nil⟩
    · rw [List.isEmpty_cons, if_neg Bool.false_ne_true, Option.map_eq_some_iff]
      constructor
      · rintro ⟨m, hm, rfl⟩
        obtain ⟨hdigits, hvalue, hsize⟩ := of_foldlM_pushDigit (by decide) hm
        exact ⟨List.cons_ne_nil _ _, hdigits, by rw [hvalue, UInt32.toNat_ofNat_of_lt' hsize]⟩
      · intro h
        refine ⟨n.toNat, ?_, UInt32.ofNat_toNat⟩
        rw [← h.value]
        refine foldlM_pushDigit h.isDigit ?_
        rw [h.value]
        exact n.toNat_lt_size
  rw [parseU32]
  split
  · next rest heq =>
    rw [hread]
    constructor
    · intro h
      exact ⟨rest, Or.inr heq, h⟩
    · rintro ⟨digits, hs | hs, h⟩
      · exact absurd (hs.symm.trans heq) h.head_ne
      · rw [heq] at hs
        rw [(List.cons.inj hs).2]
        exact h
  · next cs hplus =>
    rw [hread]
    constructor
    · intro h
      exact ⟨_, Or.inl rfl, h⟩
    · rintro ⟨digits, hs | hs, h⟩
      · rw [hs]
        exact h
      · exact absurd hs (hplus _)

/-- A number is read back from its decimal text. -/
theorem parseU32_toString (n : UInt32) : parseU32 (toString n.toNat) = some n := by
  have hlist : (toString n.toNat).toList = Nat.toDigits 10 n.toNat := by simp
  refine parseU32_eq_some_iff.mpr ⟨_, Or.inl hlist, Nat.toDigits_ne_nil, fun c hc => ?_, ?_⟩
  · exact isDigit_of_mem_toDigits hc
  · exact Nat.ofDigitChars_ten_toDigits

/-- A text that starts with neither a digit nor a plus is no number. -/
theorem parseU32_of_not_digit {s : String} {c : Char} {cs : List Char}
    (hs : s.toList = c :: cs) (hplus : c ≠ '+') (hdigit : c.isDigit = false) :
    parseU32 s = none := by
  rw [parseU32, hs]
  have hpush : ∀ acc, pushDigit acc c = none := by
    intro acc
    rw [pushDigit, if_neg fun h => by rw [hdigit] at h; cases h.1]
  split
  · next heq => exact absurd (List.cons.inj heq).1 hplus
  · rw [List.isEmpty_cons, if_neg Bool.false_ne_true, List.foldlM_cons, hpush]
    rfl

theorem contains_iff {s pat : String} : contains s pat = true ↔ pat.toList <:+: s.toList := by
  rw [contains, List.any_eq_true, List.infix_iff_prefix_suffix]
  simp only [List.mem_tails, List.isPrefixOf_iff_prefix, and_comm]

/-- A pattern without a separator does not lie across it. -/
theorem infix_append_cons_iff {α : Type} {c : α} {pat a b : List α} (hc : c ∉ pat)
    (hpat : pat ≠ []) : pat <:+: a ++ c :: b ↔ pat <:+: a ∨ pat <:+: b := by
  refine ⟨?_, ?_⟩
  · rintro ⟨left, right, h⟩
    rcases List.append_eq_append_iff.mp h with ⟨rest, rfl, -⟩ | ⟨rest, hfront, hback⟩
    · exact Or.inl ⟨left, rest, rfl⟩
    · rcases List.append_eq_append_iff.mp hfront with ⟨mid, rfl, rfl⟩ | ⟨mid, -, rfl⟩
      · cases rest with
        | nil => exact Or.inl ⟨left, [], by simp⟩
        | cons d rest =>
          rw [List.cons_append, List.cons.injEq] at hback
          exact absurd (by rw [hback.1]; simp) hc
      · cases mid with
        | nil =>
          obtain ⟨d, pat, rfl⟩ := List.exists_cons_of_ne_nil hpat
          rw [List.nil_append, List.cons_append, List.cons.injEq] at hback
          exact absurd (by rw [hback.1]; simp) hc
        | cons d mid =>
          rw [List.cons_append, List.cons_append, List.cons.injEq] at hback
          exact Or.inr ⟨mid, right, hback.2.symm⟩
  · rintro (h | h)
    · exact h.trans (List.prefix_append _ _).isInfix
    · exact h.trans ((List.suffix_cons _ _).trans (List.suffix_append _ _)).isInfix

theorem asBytes_append (s s' : String) : asBytes (s ++ s') = asBytes s ++ asBytes s' := by
  simp [asBytes]

theorem asBytes_injective : Function.Injective asBytes := by
  intro s s' h
  exact String.toByteArray_inj.mp (ByteArray.ext (Array.toList_inj.mp h))

/-- Every character takes a byte at least. -/
theorem length_le_length_asBytes (s : String) : s.toList.length ≤ (asBytes s).length := by
  have hencoded : asBytes s = s.toList.flatMap String.utf8EncodeChar := by
    rw [asBytes, ← String.utf8Encode_toList, List.utf8Encode, List.data_toByteArray,
      List.toList_toArray]
  rw [hencoded, List.length_flatMap]
  induction s.toList with
  | nil => exact le_rfl
  | cons c cs ih =>
    have hsize := c.utf8Size_pos
    rw [List.map_cons, List.sum_cons, List.length_cons, String.length_utf8EncodeChar]
    omega

end Text
