import Mathlib.Data.List.Induction
import Mathlib.Logic.Function.Basic

/-!
# Batches of a stream

Items of a stream are sorted by a key, and kept under it until those that are kept are enough.
Then they go out together as a batch, and the key starts over. Items without a key are
dropped.

Nothing is lost and nothing goes out twice: for every key, the batches one after another and
what is still kept are the items of that key, in their order (`sent_append_kept`). Every
batch has one key and is enough (`batch_enough`).
-/

namespace Batches

variable {α κ : Type} [DecidableEq κ]

/-- What is kept, and the batches that went out. -/
structure Sorted (α κ : Type) where
  kept : κ → List α
  batches : List (κ × List α)

/-- At first there is nothing. -/
def empty : Sorted α κ := ⟨fun _ => [], []⟩

variable (key : α → Option κ) (enough : List α → Bool)

/-- One more item. -/
def push (s : Sorted α κ) (a : α) : Sorted α κ :=
  match key a with
  | none => s
  | some k =>
    if enough (s.kept k ++ [a]) then
      ⟨Function.update s.kept k [], s.batches ++ [(k, s.kept k ++ [a])]⟩
    else ⟨Function.update s.kept k (s.kept k ++ [a]), s.batches⟩

/-- The items one after another. -/
def collect (items : List α) : Sorted α κ := items.foldl (push key enough) empty

/-- The items of a key. -/
def ofKey (k : κ) (items : List α) : List α := items.filter fun a => decide (key a = some k)

/-- The batches of a key, one after another. -/
def sent (k : κ) (batches : List (κ × List α)) : List α :=
  (batches.filter fun batch => decide (batch.1 = k)).flatMap Prod.snd

variable {key enough}

theorem collect_concat (items : List α) (a : α) :
    collect key enough (items ++ [a]) = push key enough (collect key enough items) a := by
  rw [collect, List.foldl_append, List.foldl_cons, List.foldl_nil, ← collect]

theorem sent_concat (k : κ) (batches : List (κ × List α)) (batch : κ × List α) :
    sent k (batches ++ [batch]) = sent k batches ++ if batch.1 = k then batch.2 else [] := by
  rw [sent, List.filter_append, List.flatMap_append, ← sent]
  by_cases h : batch.1 = k <;> simp [h]

theorem ofKey_concat (k : κ) (items : List α) (a : α) :
    ofKey key k (items ++ [a]) = ofKey key k items ++ if key a = some k then [a] else [] := by
  rw [ofKey, List.filter_append, ← ofKey]
  by_cases h : key a = some k <;> simp [h]

/-- **Every item goes out once or is still kept.** -/
theorem sent_append_kept (items : List α) (k : κ) :
    sent k (collect key enough items).batches ++ (collect key enough items).kept k =
      ofKey key k items := by
  induction items using List.reverseRecOn with
  | nil => rfl
  | append_singleton items a ih =>
    rw [collect_concat, ofKey_concat, ← ih, push]
    cases hkey : key a with
    | none => simp
    | some j =>
      by_cases hjk : j = k
      · subst hjk
        by_cases henough : enough ((collect key enough items).kept j ++ [a]) = true
        · simp [henough, sent_concat]
        · simp [henough]
      · by_cases henough : enough ((collect key enough items).kept j ++ [a]) = true
        · simp [henough, sent_concat, hjk, Function.update_of_ne (Ne.symm hjk)]
        · simp [henough, hjk, Function.update_of_ne (Ne.symm hjk)]

theorem kept_key {items : List α} {k : κ} {a : α} (h : a ∈ (collect key enough items).kept k) :
    key a = some k := by
  have hmem : a ∈ ofKey key k items := by
    rw [← @sent_append_kept _ _ _ key enough]
    exact List.mem_append_right _ h
  simpa [ofKey] using (List.mem_filter.mp hmem).2

/-- A batch goes out when it is enough, and holds what was kept and the item that came. -/
theorem batches_concat (items : List α) (a : α) :
    (collect key enough (items ++ [a])).batches = (collect key enough items).batches ∨
      ∃ k, key a = some k ∧ enough ((collect key enough items).kept k ++ [a]) = true ∧
        (collect key enough (items ++ [a])).batches = (collect key enough items).batches ++
          [(k, (collect key enough items).kept k ++ [a])] := by
  rw [collect_concat, push]
  cases hkey : key a with
  | none => exact Or.inl rfl
  | some k =>
    by_cases henough : enough ((collect key enough items).kept k ++ [a]) = true
    · exact Or.inr ⟨k, rfl, henough, by simp [henough]⟩
    · exact Or.inl (by simp [henough])

/-- **Every batch is enough, and of one key.** -/
theorem batch_enough {items : List α} {k : κ} {batch : List α}
    (h : (k, batch) ∈ (collect key enough items).batches) :
    enough batch = true ∧ ∀ a ∈ batch, key a = some k := by
  induction items using List.reverseRecOn with
  | nil => cases h
  | append_singleton items a ih =>
    rcases @batches_concat _ _ _ key enough items a with hsame | ⟨j, hkey, henough, hnew⟩
    · rw [hsame] at h
      exact ih h
    · rw [hnew, List.mem_append, List.mem_singleton] at h
      rcases h with h | h
      · exact ih h
      · cases h
        refine ⟨henough, fun b hb => ?_⟩
        rcases List.mem_append.mp hb with hb | hb
        · exact kept_key hb
        · rw [List.mem_singleton.mp hb]
          exact hkey

end Batches
