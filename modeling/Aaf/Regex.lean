import Mathlib.Data.List.Infix
import Mathlib.Data.List.Forall2

/-!
# Regular expressions with word boundaries

Expressions over any alphabet, searched for in a text. A match starts and ends at a
`Cursor`, which knows the symbol before it, so that a word boundary can be tested.

`Regex.Steps` says which matches there are. `Regex.isMatch` decides whether a text
contains one, `isMatch_iff`. An expression without repetition or boundary stands for a
finite list of words, and a text contains a match exactly when it contains one of these:
`occurs_iff_words`.
-/

universe u

/-- A place in a text: the symbol before it, and the text after it. -/
structure Cursor (α : Type u) where
  prev : Option α
  rest : List α

/-- Regular expressions. A symbol is tested by a predicate; `boundary` is a place with a
word symbol on one side only. -/
inductive Regex (α : Type u) : Type u where
  | sat (p : α → Bool) : Regex α
  | boundary (word : α → Bool) : Regex α
  | eps : Regex α
  | cat (r s : Regex α) : Regex α
  | alt (r s : Regex α) : Regex α
  | many (r : Regex α) : Regex α

/-- A word of symbol tests, spelt by a list of symbols. -/
def Spells {α : Type u} (w : List (α → Bool)) (l : List α) : Prop :=
  List.Forall₂ (fun p a => p a = true) w l

/-- The text `l` lies between two cursors. -/
def Cursor.Passes {α : Type u} (c : Cursor α) (l : List α) (d : Cursor α) : Prop :=
  c.rest = l ++ d.rest ∧ d.prev = l.getLast?.or c.prev

namespace Regex

variable {α : Type u}

/-! ## Definitions -/

/-- Optional. -/
def opt (r : Regex α) : Regex α := alt r eps

/-- Once or more. -/
def plus (r : Regex α) : Regex α := cat r (many r)

/-- A word. -/
def lit : List (α → Bool) → Regex α
  | [] => eps
  | p :: w => cat (sat p) (lit w)

/-- Exactly `n` times. -/
def exactly (r : Regex α) : ℕ → Regex α
  | 0 => eps
  | n + 1 => cat r (exactly r n)

/-- At most `n` times. -/
def upTo (r : Regex α) : ℕ → Regex α
  | 0 => eps
  | n + 1 => opt (cat r (upTo r n))

/-- `m` to `n` times. -/
def between (r : Regex α) (m n : ℕ) : Regex α := cat (exactly r m) (upTo r (n - m))

/-- The matches that lead from one cursor to another. -/
inductive Steps : Regex α → Cursor α → Cursor α → Prop
  | sat {p : α → Bool} {prev : Option α} {a : α} {rest : List α} (h : p a = true) :
      Steps (sat p) ⟨prev, a :: rest⟩ ⟨some a, rest⟩
  | boundary {word : α → Bool} {c : Cursor α}
      (h : c.prev.any word ≠ c.rest.head?.any word) : Steps (boundary word) c c
  | eps {c : Cursor α} : Steps eps c c
  | cat {r s : Regex α} {c d e : Cursor α} (hr : Steps r c d) (hs : Steps s d e) :
      Steps (cat r s) c e
  | altLeft {r s : Regex α} {c d : Cursor α} (h : Steps r c d) : Steps (alt r s) c d
  | altRight {r s : Regex α} {c d : Cursor α} (h : Steps s c d) : Steps (alt r s) c d
  | manyNil {r : Regex α} {c : Cursor α} : Steps (many r) c c
  | manyCons {r : Regex α} {c d e : Cursor α} (hr : Steps r c d) (hs : Steps (many r) d e) :
      Steps (many r) c e

/-- The cursors of a text. -/
def cursors (prev : Option α) : List α → List (Cursor α)
  | [] => [⟨prev, []⟩]
  | a :: rest => ⟨prev, a :: rest⟩ :: cursors (some a) rest

/-- The text contains a match. -/
def Occurs (r : Regex α) (text : List α) : Prop :=
  ∃ c ∈ cursors none text, ∃ d, Steps r c d

/-- What `f` leads to in at most `n` rounds that move on. -/
def rounds (f : Cursor α → List (Cursor α)) : ℕ → Cursor α → List (Cursor α)
  | 0, c => [c]
  | n + 1, c =>
    c :: ((f c).filter fun d => decide (d.rest.length < c.rest.length)).flatMap (rounds f n)

/-- The ends of the matches that start at a cursor. -/
def ends : Regex α → Cursor α → List (Cursor α)
  | sat p, c =>
    match c.rest with
    | [] => []
    | a :: rest => if p a then [⟨some a, rest⟩] else []
  | boundary word, c => if c.prev.any word ≠ c.rest.head?.any word then [c] else []
  | eps, c => [c]
  | cat r s, c => (r.ends c).flatMap s.ends
  | alt r s, c => r.ends c ++ s.ends c
  | many r, c => rounds r.ends c.rest.length c

/-- Whether the text contains a match. -/
def isMatch (r : Regex α) (text : List α) : Bool :=
  (cursors none text).any fun c => !(r.ends c).isEmpty

/-- The words of an expression without repetition or boundary. -/
def words : Regex α → Option (List (List (α → Bool)))
  | sat p => some [[p]]
  | boundary _ => none
  | eps => some [[]]
  | cat r s => do
    let ws ← r.words
    let ws' ← s.words
    some (ws.flatMap fun w => ws'.map fun w' => w ++ w')
  | alt r s => do
    let ws ← r.words
    let ws' ← s.words
    some (ws ++ ws')
  | many _ => none

/-! ## The search -/

/-- A match stays in its place, or moves on. -/
theorem Steps.eq_or_lt {r : Regex α} {c d : Cursor α} (h : Steps r c d) :
    d = c ∨ d.rest.length < c.rest.length := by
  induction h with
  | sat => exact Or.inr (Nat.lt_succ_self _)
  | boundary => exact Or.inl rfl
  | eps => exact Or.inl rfl
  | cat _ _ ihr ihs =>
    rcases ihr with rfl | hr
    · exact ihs
    · rcases ihs with rfl | hs
      · exact Or.inr hr
      · exact Or.inr (hs.trans hr)
  | altLeft _ ih => exact ih
  | altRight _ ih => exact ih
  | manyNil => exact Or.inl rfl
  | manyCons _ _ ihr ihs =>
    rcases ihr with rfl | hr
    · exact ihs
    · rcases ihs with rfl | hs
      · exact Or.inr hr
      · exact Or.inr (hs.trans hr)

/-- Enough rounds find every repetition. -/
theorem mem_rounds_iff {r : Regex α} {f : Cursor α → List (Cursor α)}
    (hf : ∀ {c d}, d ∈ f c ↔ Steps r c d) {n : ℕ} {c d : Cursor α} (hn : c.rest.length ≤ n) :
    d ∈ rounds f n c ↔ Steps (many r) c d := by
  refine ⟨fun h => ?_, fun h => ?_⟩
  · clear hn
    induction n generalizing c with
    | zero =>
      obtain rfl := List.mem_singleton.mp h
      exact .manyNil
    | succ n ih =>
      rcases List.mem_cons.mp h with rfl | h
      · exact .manyNil
      · obtain ⟨e, he, hd⟩ := List.mem_flatMap.mp h
        exact .manyCons (hf.mp (List.mem_of_mem_filter he)) (ih hd)
  · generalize hm : many r = m at h
    induction h generalizing n with
    | sat => cases hm
    | boundary => cases hm
    | eps => cases hm
    | cat => cases hm
    | altLeft => cases hm
    | altRight => cases hm
    | manyNil => cases n <;> exact List.mem_cons_self
    | manyCons hr _ _ ih =>
      cases hm
      rcases hr.eq_or_lt with rfl | hlt
      · exact ih hn rfl
      · cases n with
        | zero => omega
        | succ n =>
          refine List.mem_cons_of_mem _ (List.mem_flatMap.mpr ⟨_, ?_, ih (by omega) rfl⟩)
          exact List.mem_filter.mpr ⟨hf.mpr hr, decide_eq_true hlt⟩

/-- The computed ends are the ends of the matches. -/
theorem mem_ends_iff {r : Regex α} {c d : Cursor α} : d ∈ r.ends c ↔ Steps r c d := by
  induction r generalizing c d with
  | sat p =>
    obtain ⟨prev, rest⟩ := c
    refine ⟨fun h => ?_, ?_⟩
    · cases rest with
      | nil => cases h
      | cons a rest =>
        by_cases hp : p a = true
        · simp only [ends, hp, if_true, List.mem_singleton] at h
          obtain rfl := h
          exact .sat hp
        · simp [ends, hp] at h
    · rintro ⟨hp⟩
      simp [ends, hp]
  | boundary word =>
    refine ⟨fun h => ?_, ?_⟩
    · rw [ends] at h
      split at h
      next hb =>
        obtain rfl := List.mem_singleton.mp h
        exact .boundary hb
      next => cases h
    · intro h
      cases h with
      | boundary hb =>
        rw [ends, if_pos hb]
        exact List.mem_singleton_self _
  | eps =>
    refine ⟨fun h => ?_, ?_⟩
    · obtain rfl := List.mem_singleton.mp h
      exact .eps
    · rintro ⟨⟩
      exact List.mem_singleton_self _
  | cat r s ihr ihs =>
    rw [ends, List.mem_flatMap]
    refine ⟨?_, ?_⟩
    · rintro ⟨e, he, hd⟩
      exact .cat (ihr.mp he) (ihs.mp hd)
    · intro h
      cases h with
      | cat hr hs => exact ⟨_, ihr.mpr hr, ihs.mpr hs⟩
  | alt r s ihr ihs =>
    rw [ends, List.mem_append, ihr, ihs]
    refine ⟨?_, ?_⟩
    · rintro (h | h)
      · exact .altLeft h
      · exact .altRight h
    · intro h
      cases h with
      | altLeft h => exact Or.inl h
      | altRight h => exact Or.inr h
  | many r ih => exact mem_rounds_iff ih le_rfl

/-- **The search is right.** -/
theorem isMatch_iff {r : Regex α} {text : List α} : r.isMatch text = true ↔ Occurs r text := by
  rw [isMatch, List.any_eq_true]
  refine exists_congr fun c => and_congr_right fun _ => ?_
  rw [Bool.not_eq_true', List.isEmpty_eq_false_iff_exists_mem]
  exact exists_congr fun d => mem_ends_iff

/-! ## Words -/

theorem passes_nil (c : Cursor α) : c.Passes [] c := ⟨rfl, rfl⟩

theorem passes_nil_iff {c d : Cursor α} : c.Passes [] d ↔ d = c := by
  refine ⟨?_, ?_⟩
  · rintro ⟨hrest, hprev⟩
    cases c
    cases d
    simp_all
  · rintro rfl
    exact passes_nil d

theorem passes_trans {c d e : Cursor α} {l l' : List α} (h : c.Passes l d) (h' : d.Passes l' e) :
    c.Passes (l ++ l') e := by
  refine ⟨?_, ?_⟩
  · rw [h.1, h'.1, List.append_assoc]
  · rw [h'.2, h.2, List.getLast?_append, Option.or_assoc]

theorem passes_append_iff {c e : Cursor α} {l l' : List α} :
    c.Passes (l ++ l') e ↔ ∃ d, c.Passes l d ∧ d.Passes l' e := by
  refine ⟨fun h => ⟨⟨l.getLast?.or c.prev, l' ++ e.rest⟩, ⟨?_, rfl⟩, rfl, ?_⟩, ?_⟩
  · rw [h.1, List.append_assoc]
  · rw [h.2, List.getLast?_append, Option.or_assoc]
  · rintro ⟨d, h, h'⟩
    exact passes_trans h h'

/-- The cursors of a text are the places in it. -/
theorem mem_cursors_iff {prev : Option α} {text : List α} {c : Cursor α} :
    c ∈ cursors prev text ↔ ∃ l, (⟨prev, text⟩ : Cursor α).Passes l c := by
  induction text generalizing prev with
  | nil =>
    rw [cursors, List.mem_singleton]
    refine ⟨?_, ?_⟩
    · rintro rfl
      exact ⟨[], passes_nil _⟩
    · rintro ⟨l, hrest, hprev⟩
      obtain ⟨rfl, hnil⟩ := List.append_eq_nil_iff.mp hrest.symm
      exact passes_nil_iff.mp ⟨hrest, hprev⟩
  | cons a rest ih =>
    rw [cursors, List.mem_cons, ih]
    refine ⟨?_, ?_⟩
    · rintro (rfl | ⟨l, h⟩)
      · exact ⟨[], passes_nil _⟩
      · exact ⟨[a] ++ l, passes_append_iff.mpr ⟨⟨some a, rest⟩, ⟨rfl, rfl⟩, h⟩⟩
    · rintro ⟨_ | ⟨b, l⟩, h⟩
      · exact Or.inl (passes_nil_iff.mp h)
      · have h : (⟨prev, a :: rest⟩ : Cursor α).Passes ([b] ++ l) c := h
        obtain ⟨d, hd, h⟩ := passes_append_iff.mp h
        obtain ⟨hrest, hprev⟩ := hd
        simp only [List.cons_append, List.nil_append, List.cons.injEq] at hrest
        obtain ⟨rfl, rfl⟩ := hrest
        refine Or.inr ⟨l, ?_⟩
        have hd : d = ⟨some a, d.rest⟩ := by
          cases d
          simpa using hprev
        rwa [← hd]

theorem spells_append_iff {w w' : List (α → Bool)} {l : List α} :
    Spells (w ++ w') l ↔ ∃ l₁ l₂, l = l₁ ++ l₂ ∧ Spells w l₁ ∧ Spells w' l₂ := by
  refine ⟨fun h => ?_, ?_⟩
  · induction w generalizing l with
    | nil => exact ⟨[], l, rfl, .nil, h⟩
    | cons p w ih =>
      obtain ⟨a, l, hp, hrest, rfl⟩ := List.forall₂_cons_left_iff.mp h
      obtain ⟨l₁, l₂, rfl, h₁, h₂⟩ := ih hrest
      exact ⟨a :: l₁, l₂, rfl, .cons hp h₁, h₂⟩
  · rintro ⟨l₁, l₂, rfl, h₁, h₂⟩
    exact List.rel_append h₁ h₂

/-- The matches of an expression without repetition or boundary spell its words. -/
theorem steps_iff_words {r : Regex α} {ws : List (List (α → Bool))} (h : r.words = some ws)
    {c d : Cursor α} : Steps r c d ↔ ∃ w ∈ ws, ∃ l, Spells w l ∧ c.Passes l d := by
  induction r generalizing ws c d with
  | sat p =>
    cases h
    refine ⟨?_, ?_⟩
    · intro h
      cases h with
      | @sat _ prev a rest hp =>
        exact ⟨[p], List.mem_singleton_self _, [a], .cons hp .nil, rfl, rfl⟩
    · rintro ⟨w, hw, l, hl, hrest, hprev⟩
      obtain rfl := List.mem_singleton.mp hw
      obtain ⟨a, l, hp, hnil, rfl⟩ := List.forall₂_cons_left_iff.mp hl
      obtain rfl := List.forall₂_nil_left_iff.mp hnil
      obtain ⟨prev, rest⟩ := c
      obtain ⟨prev', rest'⟩ := d
      obtain rfl : rest = a :: rest' := hrest
      obtain rfl : prev' = some a := hprev
      exact .sat hp
  | boundary => cases h
  | eps =>
    cases h
    refine ⟨?_, ?_⟩
    · rintro ⟨⟩
      exact ⟨[], List.mem_singleton_self _, [], .nil, passes_nil _⟩
    · rintro ⟨w, hw, l, hl, h⟩
      obtain rfl := List.mem_singleton.mp hw
      obtain rfl := List.forall₂_nil_left_iff.mp hl
      obtain rfl := passes_nil_iff.mp h
      exact .eps
  | cat r s ihr ihs =>
    rcases hr : r.words with _ | ws₁
    · simp [words, hr] at h
    rcases hs : s.words with _ | ws₂
    · simp [words, hr, hs] at h
    simp only [words, hr, hs, Option.bind_eq_bind, Option.bind_some, Option.some.injEq] at h
    subst h
    refine ⟨?_, ?_⟩
    · intro h
      cases h with
      | cat h₁ h₂ =>
        obtain ⟨w₁, hw₁, l₁, hl₁, hc⟩ := (ihr hr).mp h₁
        obtain ⟨w₂, hw₂, l₂, hl₂, hd⟩ := (ihs hs).mp h₂
        refine ⟨w₁ ++ w₂, ?_, l₁ ++ l₂, List.rel_append hl₁ hl₂, passes_trans hc hd⟩
        exact List.mem_flatMap.mpr ⟨w₁, hw₁, List.mem_map_of_mem hw₂⟩
    · rintro ⟨w, hw, l, hl, h⟩
      obtain ⟨w₁, hw₁, hw⟩ := List.mem_flatMap.mp hw
      obtain ⟨w₂, hw₂, rfl⟩ := List.mem_map.mp hw
      obtain ⟨l₁, l₂, rfl, hl₁, hl₂⟩ := spells_append_iff.mp hl
      obtain ⟨e, hc, hd⟩ := passes_append_iff.mp h
      exact .cat ((ihr hr).mpr ⟨w₁, hw₁, l₁, hl₁, hc⟩) ((ihs hs).mpr ⟨w₂, hw₂, l₂, hl₂, hd⟩)
  | alt r s ihr ihs =>
    rcases hr : r.words with _ | ws₁
    · simp [words, hr] at h
    rcases hs : s.words with _ | ws₂
    · simp [words, hr, hs] at h
    simp only [words, hr, hs, Option.bind_eq_bind, Option.bind_some, Option.some.injEq] at h
    subst h
    refine ⟨?_, ?_⟩
    · intro h
      cases h with
      | altLeft h =>
        obtain ⟨w, hw, hl⟩ := (ihr hr).mp h
        exact ⟨w, List.mem_append_left _ hw, hl⟩
      | altRight h =>
        obtain ⟨w, hw, hl⟩ := (ihs hs).mp h
        exact ⟨w, List.mem_append_right _ hw, hl⟩
    · rintro ⟨w, hw, hl⟩
      rcases List.mem_append.mp hw with hw | hw
      · exact .altLeft ((ihr hr).mpr ⟨w, hw, hl⟩)
      · exact .altRight ((ihs hs).mpr ⟨w, hw, hl⟩)
  | many => cases h

/-- **A finite search.** A text contains a match exactly when it contains one of the
words. -/
theorem occurs_iff_words {r : Regex α} {ws : List (List (α → Bool))} (h : r.words = some ws)
    {text : List α} : Occurs r text ↔ ∃ w ∈ ws, ∃ l, Spells w l ∧ l <:+: text := by
  refine ⟨?_, ?_⟩
  · rintro ⟨c, hc, d, hd⟩
    obtain ⟨pre, hpre, -⟩ := mem_cursors_iff.mp hc
    obtain ⟨w, hw, l, hl, hrest, -⟩ := (steps_iff_words h).mp hd
    refine ⟨w, hw, l, hl, pre, d.rest, ?_⟩
    rw [List.append_assoc, ← hrest]
    exact hpre.symm
  · rintro ⟨w, hw, l, hl, pre, post, rfl⟩
    refine ⟨⟨pre.getLast?.or none, l ++ post⟩, mem_cursors_iff.mpr ⟨pre, ?_, rfl⟩, ?_⟩
    · rw [List.append_assoc]
    · exact ⟨⟨l.getLast?.or (pre.getLast?.or none), post⟩,
        (steps_iff_words h).mpr ⟨w, hw, l, hl, rfl, rfl⟩⟩

end Regex
