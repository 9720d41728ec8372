import Mathlib.Data.Prod.Lex
import Mathlib.Data.UInt
import Aaf.Text

/-!
# Versions of capabilities

The comparison of version strings (`aaf-registry`). `IsVersion` is the format its
documentation names: two or three `u32` components, with one leading `v` or none.
`IsLoose` is what the parser reads: any number of leading `v`s, a plus sign in front of a
component, anything behind the third one.

`parse_eq_some_iff`: the parser reads exactly the loose format. `compare_exact_iff`:
`Invalid` tells versions from other strings exactly where the two formats do not differ,
and on versions the order is that of the triples.
-/

namespace Aaf

/-- Tri-state comparison result, and `Invalid`. -/
inductive VersionOrdering : Type where
  | older : VersionOrdering
  | equal : VersionOrdering
  | newer : VersionOrdering
  | invalid : VersionOrdering
  deriving DecidableEq, Repr

namespace Version

/-- Major, minor, patch. -/
abbrev Triple : Type := UInt32 × UInt32 × UInt32

/-- `parse`. -/
def parse (s : String) : Option Triple := do
  let parts := Text.split (Text.trimStartMatches s 'v') '.'
  let major ← parts[0]? >>= Text.parseU32
  let minor ← parts[1]? >>= Text.parseU32
  let patch ← Text.parseU32 (parts[2]?.getD "0")
  return (major, minor, patch)

/-- The order of tuples, component by component. -/
def cmp (a b : Triple) : Ordering :=
  (Ord.compare a.1 b.1).then ((Ord.compare a.2.1 b.2.1).then (Ord.compare a.2.2 b.2.2))

/-- `compare`. -/
def compare (a b : String) : VersionOrdering :=
  match parse a, parse b with
  | some a, some b =>
    match cmp a b with
    | .lt => .older
    | .eq => .equal
    | .gt => .newer
  | _, _ => .invalid

/-! ## The formats -/

/-- `MAJOR.MINOR`, where the patch counts as zero, or `MAJOR.MINOR.PATCH`. -/
inductive IsBody : List Char → Triple → Prop
  | short {major minor : List Char} {m n : UInt32} (hm : Text.IsNumeral major m)
      (hn : Text.IsNumeral minor n) : IsBody (major ++ '.' :: minor) (m, n, 0)
  | full {major minor patch : List Char} {m n p : UInt32} (hm : Text.IsNumeral major m)
      (hn : Text.IsNumeral minor n) (hp : Text.IsNumeral patch p) :
      IsBody (major ++ '.' :: (minor ++ '.' :: patch)) (m, n, p)

/-- A version, with one leading `v` or none, and its triple. -/
def IsVersion (s : String) (t : Triple) : Prop :=
  ∃ body, (s.toList = body ∨ s.toList = 'v' :: body) ∧ IsBody body t

/-- A component with a plus sign or without. -/
def IsSigned (component : List Char) (n : UInt32) : Prop :=
  ∃ digits, (component = digits ∨ component = '+' :: digits) ∧ Text.IsNumeral digits n

/-- Two components or three, possibly signed, and anything behind a third dot. -/
inductive IsLooseBody : List Char → Triple → Prop
  | short {major minor : List Char} {m n : UInt32} (hm : IsSigned major m)
      (hn : IsSigned minor n) : IsLooseBody (major ++ '.' :: minor) (m, n, 0)
  | full {major minor patch : List Char} {m n p : UInt32} (hm : IsSigned major m)
      (hn : IsSigned minor n) (hp : IsSigned patch p) :
      IsLooseBody (major ++ '.' :: (minor ++ '.' :: patch)) (m, n, p)
  | more {major minor patch rest : List Char} {m n p : UInt32} (hm : IsSigned major m)
      (hn : IsSigned minor n) (hp : IsSigned patch p) :
      IsLooseBody (major ++ '.' :: (minor ++ '.' :: (patch ++ '.' :: rest))) (m, n, p)

/-- The loose format: any number of leading `v`s. -/
def IsLoose (s : String) (t : Triple) : Prop :=
  ∃ k body, s.toList = List.replicate k 'v' ++ body ∧ IsLooseBody body t

/-! ## What is read -/

section Parse

variable {s : String} {t : Triple} {component body : List Char} {n : UInt32}

theorem IsSigned.parseU32 (h : IsSigned component n) :
    Text.parseU32 (String.ofList component) = some n := by
  obtain ⟨digits, hcomponent, hnum⟩ := h
  rw [Text.parseU32_eq_some_iff, String.toList_ofList]
  exact ⟨digits, hcomponent, hnum⟩

theorem isSigned_of_parseU32 (h : Text.parseU32 (String.ofList component) = some n) :
    IsSigned component n := by
  rw [Text.parseU32_eq_some_iff, String.toList_ofList] at h
  exact h

/-- A component has no dot and does not start with a `v`. -/
theorem IsSigned.chars (h : IsSigned component n) :
    '.' ∉ component ∧ ∃ c rest, component = c :: rest ∧ c ≠ 'v' := by
  obtain ⟨digits, hcomponent, hnum⟩ := h
  have hdot : '.' ∉ digits := fun hmem => absurd (hnum.isDigit '.' hmem) (by decide)
  rcases hcomponent with rfl | rfl
  · refine ⟨hdot, ?_⟩
    obtain ⟨c, rest, rfl⟩ := List.exists_cons_of_ne_nil hnum.ne_nil
    refine ⟨c, rest, rfl, ?_⟩
    rintro rfl
    exact absurd (hnum.isDigit 'v' List.mem_cons_self) (by decide)
  · refine ⟨fun hmem => ?_, '+', digits, rfl, by decide⟩
    rcases List.mem_cons.mp hmem with heq | hmem
    · exact absurd heq (by decide)
    · exact hdot hmem

/-- A text is cut at its first dot, if it has one. -/
theorem splitOn_cases (body : List Char) :
    body.splitOn '.' = [body] ∨
      ∃ front back, body = front ++ '.' :: back ∧ body.splitOn '.' = front :: back.splitOn '.' := by
  by_cases hdot : '.' ∈ body
  · obtain ⟨front, back, rfl, hfront⟩ := List.eq_append_cons_of_mem hdot
    exact Or.inr ⟨front, back, rfl, List.splitOn_append_cons_self_of_not_mem hfront back⟩
  · exact Or.inl (List.splitOn_eq_singleton hdot)

/-- What the parser asks of the parts. -/
def ReadsParts (parts : List (List Char)) : Triple → Prop
  | (m, n, p) =>
    (∃ major, parts[0]? = some major ∧ IsSigned major m) ∧
    (∃ minor, parts[1]? = some minor ∧ IsSigned minor n) ∧
    ((parts[2]? = none ∧ p = 0) ∨ ∃ patch, parts[2]? = some patch ∧ IsSigned patch p)

theorem parse_iff_readsParts :
    parse s = some t ↔
      ReadsParts ((s.toList.dropWhile fun d => decide (d = 'v')).splitOn '.') t := by
  obtain ⟨m, n, p⟩ := t
  have hzero : Text.parseU32 "0" = some 0 := by decide +kernel
  simp only [parse, Text.split, Text.trimStartMatches, String.toList_ofList, List.getElem?_map,
    ReadsParts]
  generalize (s.toList.dropWhile fun d => decide (d = 'v')).splitOn '.' = parts
  constructor
  · intro h
    simp only [Option.bind_eq_bind, Option.pure_def, Option.bind_eq_some_iff,
      Option.map_eq_some_iff, Option.some.injEq, Prod.mk.injEq] at h
    obtain ⟨m', ⟨-, ⟨major, hmajor, rfl⟩, hm⟩, n', ⟨-, ⟨minor, hminor, rfl⟩, hn⟩, p', hp, rfl,
      rfl, rfl⟩ := h
    refine ⟨⟨major, hmajor, isSigned_of_parseU32 hm⟩, ⟨minor, hminor, isSigned_of_parseU32 hn⟩, ?_⟩
    rcases hpatch : parts[2]? with _ | patch
    · rw [hpatch, Option.map_none, Option.getD_none, hzero] at hp
      exact Or.inl ⟨rfl, (Option.some.inj hp).symm⟩
    · rw [hpatch, Option.map_some, Option.getD_some] at hp
      exact Or.inr ⟨patch, rfl, isSigned_of_parseU32 hp⟩
  · rintro ⟨⟨major, hmajor, hm⟩, ⟨minor, hminor, hn⟩, ⟨hpatch, rfl⟩ | ⟨patch, hpatch, hp⟩⟩
    · simp [hmajor, hminor, hpatch, hm.parseU32, hn.parseU32, hzero]
    · simp [hmajor, hminor, hpatch, hm.parseU32, hn.parseU32, hp.parseU32]

/-- The loose format is what the parts of a text have to be. -/
theorem isLooseBody_iff : IsLooseBody body t ↔ ReadsParts (body.splitOn '.') t := by
  have hcut : ∀ {front back : List Char} {n : UInt32}, IsSigned front n →
      (front ++ '.' :: back).splitOn '.' = front :: back.splitOn '.' := fun h =>
    List.splitOn_append_cons_self_of_not_mem h.chars.1 _
  have hlast : ∀ {last : List Char} {n : UInt32}, IsSigned last n →
      last.splitOn '.' = [last] := fun h => List.splitOn_eq_singleton h.chars.1
  constructor
  · intro h
    cases h with
    | short hm hn =>
      rw [hcut hm, hlast hn]
      exact ⟨⟨_, rfl, hm⟩, ⟨_, rfl, hn⟩, Or.inl ⟨rfl, rfl⟩⟩
    | full hm hn hp =>
      rw [hcut hm, hcut hn, hlast hp]
      exact ⟨⟨_, rfl, hm⟩, ⟨_, rfl, hn⟩, Or.inr ⟨_, rfl, hp⟩⟩
    | more hm hn hp =>
      rw [hcut hm, hcut hn, hcut hp]
      exact ⟨⟨_, rfl, hm⟩, ⟨_, rfl, hn⟩, Or.inr ⟨_, rfl, hp⟩⟩
  · obtain ⟨m, n, p⟩ := t
    rintro ⟨⟨major, hmajor, hm⟩, ⟨minor, hminor, hn⟩, hpatch⟩
    -- at least one dot
    rcases splitOn_cases body with hsplit | ⟨front, back, rfl, hsplit⟩
    · rw [hsplit] at hminor
      cases hminor
    · rw [hsplit] at hmajor hminor hpatch
      obtain rfl : front = major := Option.some.inj hmajor
      -- exactly one, or more
      rcases splitOn_cases back with hsplit | ⟨middle, back, rfl, hsplit⟩
      · rw [hsplit] at hminor hpatch
        obtain rfl : back = minor := Option.some.inj hminor
        rcases hpatch with ⟨-, rfl⟩ | ⟨patch, hpatch, -⟩
        · exact .short hm hn
        · cases hpatch
      · rw [hsplit] at hminor hpatch
        obtain rfl : middle = minor := Option.some.inj hminor
        rcases hpatch with ⟨hnone, -⟩ | ⟨patch, hpatch, hp⟩
        · obtain ⟨last, rest, hback⟩ :=
            List.exists_cons_of_ne_nil (List.splitOn_ne_nil '.' back)
          rw [hback] at hnone
          cases hnone
        · rcases splitOn_cases back with hsplit | ⟨last, rest, rfl, hsplit⟩
          · rw [hsplit] at hpatch
            obtain rfl : back = patch := Option.some.inj hpatch
            exact .full hm hn hp
          · rw [hsplit] at hpatch
            obtain rfl : last = patch := Option.some.inj hpatch
            exact .more hm hn hp

theorem IsLooseBody.head (h : IsLooseBody body t) : ∃ c rest, body = c :: rest ∧ c ≠ 'v' := by
  have hfront : ∀ {front back : List Char} {n : UInt32}, IsSigned front n →
      ∃ c rest, front ++ '.' :: back = c :: rest ∧ c ≠ 'v' := by
    intro front back n hn
    obtain ⟨-, c, rest, rfl, hc⟩ := hn.chars
    exact ⟨c, rest ++ '.' :: back, rfl, hc⟩
  cases h with
  | short hm hn => exact hfront hm
  | full hm hn hp => exact hfront hm
  | more hm hn hp => exact hfront hm

/-- The leading `v`s are cut off, however many there are. -/
theorem dropWhile_replicate (h : IsLooseBody body t) (k : ℕ) :
    (List.replicate k 'v' ++ body).dropWhile (fun d => decide (d = 'v')) = body := by
  obtain ⟨c, rest, rfl, hc⟩ := h.head
  rw [List.dropWhile_append_of_pos fun d hd => decide_eq_true (List.eq_of_mem_replicate hd)]
  exact List.dropWhile_cons_of_neg (by simpa using hc)

/-- **What the parser reads**: the loose format. -/
theorem parse_eq_some_iff : parse s = some t ↔ IsLoose s t := by
  rw [parse_iff_readsParts, ← isLooseBody_iff]
  constructor
  · intro h
    refine ⟨(s.toList.takeWhile fun d => decide (d = 'v')).length, _, ?_, h⟩
    have hfront : s.toList.takeWhile (fun d => decide (d = 'v')) =
        List.replicate (s.toList.takeWhile fun d => decide (d = 'v')).length 'v' :=
      List.eq_replicate_of_mem fun d hd =>
        of_decide_eq_true (List.mem_takeWhile_imp (p := fun d => decide (d = 'v')) hd)
    rw [← hfront, List.takeWhile_append_dropWhile]
  · rintro ⟨k, body, hs, hbody⟩
    rw [hs, dropWhile_replicate hbody]
    exact hbody

theorem isSigned_of_isNumeral (h : Text.IsNumeral component n) : IsSigned component n :=
  ⟨component, Or.inl rfl, h⟩

theorem IsBody.isLooseBody (h : IsBody body t) : IsLooseBody body t := by
  cases h with
  | short hm hn => exact .short (isSigned_of_isNumeral hm) (isSigned_of_isNumeral hn)
  | full hm hn hp =>
    exact .full (isSigned_of_isNumeral hm) (isSigned_of_isNumeral hn) (isSigned_of_isNumeral hp)

/-- Versions are among what is read. -/
theorem IsVersion.isLoose (h : IsVersion s t) : IsLoose s t := by
  obtain ⟨body, hs, hbody⟩ := h
  rcases hs with hs | hs
  · exact ⟨0, body, hs, hbody.isLooseBody⟩
  · exact ⟨1, body, hs, hbody.isLooseBody⟩

end Parse

/-! ## The order -/

/-- The numbers of a triple under the lexicographic order. -/
def lex (t : Triple) : ℕ ×ₗ ℕ ×ₗ ℕ := toLex (t.1.toNat, toLex (t.2.1.toNat, t.2.2.toNat))

section Order

variable {a b c : String} {t u : Triple}

theorem lex_injective : Function.Injective lex := by
  rintro ⟨m, n, p⟩ ⟨m', n', p'⟩ h
  simpa [lex, UInt32.toNat_inj] using h

/-- The tuples are compared lexicographically. -/
theorem cmp_eq (t u : Triple) : cmp t u = Ord.compare (lex t) (lex u) := by
  simp only [cmp, UInt32.compare_eq_toNat_compare_toNat]
  rfl

/-- How two triples compare. -/
def orderOf (t u : Triple) : VersionOrdering :=
  if lex t < lex u then .older else if t = u then .equal else .newer

theorem orderOf_eq_cmp (t u : Triple) :
    (match cmp t u with
      | .lt => .older
      | .eq => .equal
      | .gt => .newer) = orderOf t u := by
  rw [orderOf]
  rcases hcmp : cmp t u with _ | _ | _
  · rw [cmp_eq, compare_lt_iff_lt] at hcmp
    rw [if_pos hcmp]
  · rw [cmp_eq, compare_eq_iff_eq] at hcmp
    rw [if_neg hcmp.not_lt, if_pos (lex_injective hcmp)]
  · rw [cmp_eq, compare_gt_iff_gt] at hcmp
    rw [if_neg hcmp.not_gt, if_neg fun h => hcmp.ne (congrArg lex h).symm]

theorem compare_eq (ht : parse a = some t) (hu : parse b = some u) :
    compare a b = orderOf t u := by
  rw [compare, ht, hu]
  exact orderOf_eq_cmp t u

theorem orderOf_ne_invalid (t u : Triple) : orderOf t u ≠ .invalid := by
  rw [orderOf]
  split_ifs <;> decide

theorem orderOf_eq_newer_iff : orderOf t u = .newer ↔ lex u < lex t := by
  rw [orderOf]
  rcases lt_trichotomy (lex t) (lex u) with h | h | h
  · simp [h, h.not_gt]
  · simp [lex_injective h]
  · have hne : t ≠ u := fun heq => h.ne (congrArg lex heq).symm
    simp [h.not_gt, hne, h]

theorem orderOf_eq_equal_iff : orderOf t u = .equal ↔ t = u := by
  rw [orderOf]
  by_cases hlt : lex t < lex u
  · have hne : t ≠ u := fun heq => hlt.ne (congrArg lex heq)
    simp [hlt, hne]
  · simp [hlt]

theorem orderOf_eq_older_iff : orderOf t u = .older ↔ lex t < lex u := by
  rw [orderOf]
  by_cases h : lex t < lex u
  · simp [h]
  · by_cases heq : t = u <;> simp [h, heq]

/-- The comparison is `Invalid` exactly when one of the strings is not read. -/
theorem compare_eq_invalid_iff :
    compare a b = .invalid ↔ parse a = none ∨ parse b = none := by
  rcases ha : parse a with _ | t
  · simp [compare, ha]
  · rcases hb : parse b with _ | u
    · simp [compare, ha, hb]
    · rw [compare_eq ha hb]
      simp [orderOf_ne_invalid]

/-- A comparison that comes out `Newer` or `Older` has read both strings. -/
theorem parse_of_compare (h : compare a b ≠ .invalid) :
    ∃ t u, parse a = some t ∧ parse b = some u ∧ compare a b = orderOf t u := by
  rw [ne_eq, compare_eq_invalid_iff, not_or] at h
  obtain ⟨t, ht⟩ := Option.ne_none_iff_exists'.mp h.1
  obtain ⟨u, hu⟩ := Option.ne_none_iff_exists'.mp h.2
  exact ⟨t, u, ht, hu, compare_eq ht hu⟩

theorem compare_newer_iff :
    compare a b = .newer ↔ ∃ t u, parse a = some t ∧ parse b = some u ∧ lex u < lex t := by
  constructor
  · intro h
    obtain ⟨t, u, ht, hu, heq⟩ := parse_of_compare (a := a) (b := b) (by rw [h]; decide)
    rw [heq, orderOf_eq_newer_iff] at h
    exact ⟨t, u, ht, hu, h⟩
  · rintro ⟨t, u, ht, hu, h⟩
    rw [compare_eq ht hu, orderOf_eq_newer_iff]
    exact h

theorem compare_older_iff :
    compare a b = .older ↔ compare b a = .newer := by
  rw [compare_newer_iff]
  constructor
  · intro h
    obtain ⟨t, u, ht, hu, heq⟩ := parse_of_compare (a := a) (b := b) (by rw [h]; decide)
    rw [heq, orderOf_eq_older_iff] at h
    exact ⟨u, t, hu, ht, h⟩
  · rintro ⟨u, t, hu, ht, h⟩
    rw [compare_eq ht hu, orderOf_eq_older_iff]
    exact h

theorem compare_newer_trans (hab : compare a b = .newer)
    (hbc : compare b c = .newer) : compare a c = .newer := by
  obtain ⟨t, u, ht, hu, hlt⟩ := compare_newer_iff.mp hab
  obtain ⟨u', v, hu', hv, hlt'⟩ := compare_newer_iff.mp hbc
  obtain rfl : u = u' := Option.some.inj (hu.symm.trans hu')
  exact compare_newer_iff.mpr ⟨t, v, ht, hv, hlt'.trans hlt⟩

theorem compare_newer_asymm (hab : compare a b = .newer) : compare b a ≠ .newer := by
  intro hba
  obtain ⟨t, u, ht, hu, hlt⟩ := compare_newer_iff.mp hab
  obtain ⟨u', t', hu', ht', hlt'⟩ := compare_newer_iff.mp hba
  obtain rfl : u = u' := Option.some.inj (hu.symm.trans hu')
  obtain rfl : t = t' := Option.some.inj (ht.symm.trans ht')
  exact lt_asymm hlt hlt'

/-- The string is a version. -/
def Valid (s : String) : Prop := ∃ t, IsVersion s t

/-- The string is read. -/
def Readable (s : String) : Prop := ∃ t, IsLoose s t

theorem Valid.readable {s : String} (h : Valid s) : Readable s := by
  obtain ⟨t, ht⟩ := h
  exact ⟨t, ht.isLoose⟩

theorem parse_eq_none_iff {s : String} : parse s = none ↔ ¬ Readable s := by
  rw [Readable, ← not_iff_not, not_not, ← ne_eq, Option.ne_none_iff_exists']
  simp only [parse_eq_some_iff]

theorem compare_eq_invalid_iff_not :
    compare a b = .invalid ↔ ¬ (Readable a ∧ Readable b) := by
  rw [compare_eq_invalid_iff, parse_eq_none_iff, parse_eq_none_iff, ← not_and_or]

/-- **Version comparison.** `Invalid` is what the comparison of anything but two versions
comes to, except where both strings are readable and one of them is no version. Versions
are ordered by their triples, and `Newer` and `Older` are opposite orders in any case. -/
theorem compare_exact_iff (a b : String) :
    ((compare a b = .invalid ↔ ¬ (Valid a ∧ Valid b)) ↔
      ¬ ((Readable a ∧ Readable b) ∧ ¬ (Valid a ∧ Valid b))) ∧
    (∀ t u, IsVersion a t → IsVersion b u →
      (compare a b = .older ↔ lex t < lex u) ∧
      (compare a b = .equal ↔ t = u) ∧
      (compare a b = .newer ↔ lex u < lex t)) ∧
    (compare a b = .older ↔ compare b a = .newer) ∧
    (compare a b = .newer → compare b a ≠ .newer) ∧
    ∀ c, compare a b = .newer → compare b c = .newer → compare a c = .newer := by
  refine ⟨?_, fun t u ht hu => ?_, compare_older_iff, compare_newer_asymm,
    fun c => compare_newer_trans⟩
  · rw [compare_eq_invalid_iff_not, not_iff_not]
    constructor
    · rintro hiff ⟨hread, hnot⟩
      exact hnot (hiff.mp hread)
    · intro hnot
      refine ⟨fun hread => ?_, fun hvalid => ⟨hvalid.1.readable, hvalid.2.readable⟩⟩
      by_contra hinvalid
      exact hnot ⟨hread, hinvalid⟩
  · rw [compare_eq (parse_eq_some_iff.mpr ht.isLoose) (parse_eq_some_iff.mpr hu.isLoose)]
    exact ⟨orderOf_eq_older_iff, orderOf_eq_equal_iff, orderOf_eq_newer_iff⟩

/-- A leading `v` and a missing patch. -/
theorem compare_exact_release : compare "1.2" "v1.10.0" = .older := by
  have hone : Text.IsNumeral ['1'] 1 := ⟨by decide, by simp, by decide⟩
  have htwo : Text.IsNumeral ['2'] 2 := ⟨by decide, by simp, by decide⟩
  have hten : Text.IsNumeral ['1', '0'] 10 := ⟨by decide, by simp, by decide⟩
  have hzero : Text.IsNumeral ['0'] 0 := ⟨by decide, by simp, by decide⟩
  have hshort : IsVersion "1.2" (1, 2, 0) := by
    refine ⟨_, Or.inl rfl, ?_⟩
    change IsBody (['1'] ++ '.' :: ['2']) (1, 2, 0)
    exact .short hone htwo
  have hfull : IsVersion "v1.10.0" (1, 10, 0) := by
    refine ⟨_, Or.inr rfl, ?_⟩
    change IsBody (['1'] ++ '.' :: (['1', '0'] ++ '.' :: ['0'])) (1, 10, 0)
    exact .full hone hten hzero
  exact ((compare_exact_iff "1.2" "v1.10.0").2.1 _ _ hshort hfull).1.mpr (by decide)

/-- A second `v` is read over, although it makes the string no version. -/
theorem compare_repeated_prefix : compare "vv1.2.3" "1.2.3" = .equal ∧ ¬ Valid "vv1.2.3" := by
  refine ⟨by decide +kernel, ?_⟩
  rintro ⟨t, body, hs, hbody⟩
  obtain ⟨c, rest, rfl, hc⟩ := hbody.isLooseBody.head
  rcases hs with hs | hs
  · exact hc (List.cons.inj hs).1.symm
  · exact hc (List.cons.inj (List.cons.inj hs).2).1.symm

end Order

end Version

end Aaf
