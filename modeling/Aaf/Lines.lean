import Aaf.Text

/-!
# Lines and blocks

A text in lines, and lines in blocks. When no line holds the separator, the text determines its
lines (`text_injective`). When every block has a mark in front and nowhere else, the blocks put
behind each other determine the blocks (`blocks_injective`).
-/

namespace Lines

variable {α β γ : Type}

/-! ## Lines -/

/-- The lines, each with the separator behind it. -/
def text (sep : α) (lines : List (List α)) : List α := lines.flatMap fun line => line ++ [sep]

variable {sep : α}

@[simp]
theorem text_nil : text sep [] = [] := rfl

@[simp]
theorem text_cons (line : List α) (lines : List (List α)) :
    text sep (line :: lines) = line ++ sep :: text sep lines := by
  rw [text, List.flatMap_cons, List.append_assoc, List.singleton_append, text]

@[simp]
theorem text_append (lines lines' : List (List α)) :
    text sep (lines ++ lines') = text sep lines ++ text sep lines' :=
  List.flatMap_append

theorem text_flatMap (f : β → List (List α)) (l : List β) :
    text sep (l.flatMap f) = l.flatMap fun b => text sep (f b) :=
  List.flatMap_assoc

/-- Lines without the separator are told apart by their text. -/
theorem text_injective {lines lines' : List (List α)} (hlines : ∀ line ∈ lines, sep ∉ line)
    (hlines' : ∀ line ∈ lines', sep ∉ line) (h : text sep lines = text sep lines') :
    lines = lines' := by
  induction lines generalizing lines' with
  | nil =>
    cases lines' with
    | nil => rfl
    | cons line' lines' => simp at h
  | cons line lines ih =>
    cases lines' with
    | nil => simp at h
    | cons line' lines' =>
      rw [text_cons, text_cons] at h
      obtain ⟨rfl, hrest⟩ := Text.append_cons_inj_first (hlines _ List.mem_cons_self)
        (hlines' _ List.mem_cons_self) h
      rw [ih (fun l hl => hlines l (List.mem_cons_of_mem _ hl))
        (fun l hl => hlines' l (List.mem_cons_of_mem _ hl)) hrest]

/-! ## Blocks -/

/-- The list is empty or has a mark in front. -/
def Begins (mark : α → Prop) (l : List α) : Prop := ∀ a ∈ l.head?, mark a

variable {mark : α → Prop}

/-- A part without marks ends where the next block begins. -/
theorem append_inj_of_begins {a a' b b' : List α} (ha : ∀ x ∈ a, ¬ mark x)
    (ha' : ∀ x ∈ a', ¬ mark x) (hb : Begins mark b) (hb' : Begins mark b')
    (h : a ++ b = a' ++ b') : a = a' ∧ b = b' := by
  induction a generalizing a' with
  | nil =>
    cases a' with
    | nil => exact ⟨rfl, h⟩
    | cons x a' =>
      have hmark : mark x := hb x (by rw [show b = x :: (a' ++ b') from h]; rfl)
      exact absurd hmark (ha' x List.mem_cons_self)
  | cons x a ih =>
    cases a' with
    | nil =>
      have hmark : mark x := hb' x (by rw [show b' = x :: (a ++ b) from h.symm]; rfl)
      exact absurd hmark (ha x List.mem_cons_self)
    | cons x' a' =>
      obtain ⟨rfl, hrest⟩ := List.cons.inj h
      obtain ⟨rfl, rfl⟩ := ih (fun y hy => ha y (List.mem_cons_of_mem _ hy))
        (fun y hy => ha' y (List.mem_cons_of_mem _ hy)) hrest
      exact ⟨rfl, rfl⟩

/-- A block: its head has the mark, nothing in its body does. -/
def IsBlock (mark : α → Prop) (head : α) (body : List α) : Prop :=
  mark head ∧ ∀ x ∈ body, ¬ mark x

variable {head : β → α} {body : β → List α}

theorem begins_blocks {blocks : List β}
    (hblocks : ∀ b ∈ blocks, IsBlock mark (head b) (body b)) :
    Begins mark (blocks.flatMap fun b => head b :: body b) := by
  cases blocks with
  | nil => simp [Begins]
  | cons b blocks =>
    have hhead := (hblocks b List.mem_cons_self).1
    simpa [Begins] using hhead

/-- Blocks are told apart by their concatenation, as far as head and body tell them apart. -/
theorem blocks_injective {shown : β → γ} {blocks blocks' : List β}
    (hblocks : ∀ b ∈ blocks, IsBlock mark (head b) (body b))
    (hblocks' : ∀ b ∈ blocks', IsBlock mark (head b) (body b))
    (hshown : ∀ b ∈ blocks, ∀ b' ∈ blocks', head b = head b' → body b = body b' →
      shown b = shown b')
    (h : (blocks.flatMap fun b => head b :: body b) =
      blocks'.flatMap fun b => head b :: body b) :
    blocks.map shown = blocks'.map shown := by
  induction blocks generalizing blocks' with
  | nil =>
    cases blocks' with
    | nil => rfl
    | cons b' blocks' => simp at h
  | cons b blocks ih =>
    cases blocks' with
    | nil => simp at h
    | cons b' blocks' =>
      rw [List.flatMap_cons, List.flatMap_cons, List.cons_append, List.cons_append] at h
      obtain ⟨hhead, htail⟩ := List.cons.inj h
      have hlater := (List.forall_mem_cons.mp hblocks).2
      have hlater' := (List.forall_mem_cons.mp hblocks').2
      obtain ⟨hbody, hrest⟩ := append_inj_of_begins (hblocks b List.mem_cons_self).2
        (hblocks' b' List.mem_cons_self).2 (begins_blocks hlater) (begins_blocks hlater') htail
      have hfirst := hshown b List.mem_cons_self b' List.mem_cons_self hhead hbody
      rw [List.map_cons, List.map_cons, hfirst, ih hlater hlater'
        (fun c hc c' hc' => hshown c (List.mem_cons_of_mem _ hc) c' (List.mem_cons_of_mem _ hc'))
        hrest]

end Lines
