import Mathlib.Data.List.Induction

/-!
# Loops with early exit, and logs justified by their past

Two pieces of general machinery.

* **Early exit.** A `for` loop whose body may `return` is `List.foldlM` in the
  `Except` monad: the error is the early result. `foldlM_ok` carries an
  invariant indexed by the processed prefix; `foldlM_error_iff` says that an
  early exit happens at one element, entered in the state the prefix left.
* **Justified logs.** A past-time property of a run is a property of its event
  log: every entry must be justified by the entries before it. `Justified` is
  that property, and it is built up one appended entry at a time.
-/

namespace Loop

universe u v w

variable {σ : Type u} {α : Type v} {ε : Type w}

/-! ## Sequencing in `Except` -/

/-- A sequence succeeds when both halves do. -/
theorem bind_ok_iff {β : Type u} {m : Except ε σ} {f : σ → Except ε β} {b : β} :
    m >>= f = .ok b ↔ ∃ a, m = .ok a ∧ f a = .ok b := by
  cases m with
  | error e =>
    refine ⟨fun h => ?_, ?_⟩
    · cases h
    · rintro ⟨a, ha, -⟩
      cases ha
  | ok a =>
    refine ⟨fun h => ⟨a, rfl, h⟩, ?_⟩
    rintro ⟨a', ha, hf⟩
    cases ha
    exact hf

/-- A check and what follows it. -/
theorem bind_unit_ok_iff {β : Type u} {m : Except ε PUnit} {f : PUnit → Except ε β} {b : β} :
    m >>= f = .ok b ↔ m = .ok ⟨⟩ ∧ f ⟨⟩ = .ok b := by
  rw [bind_ok_iff]
  refine ⟨?_, fun h => ⟨⟨⟩, h⟩⟩
  rintro ⟨_, h⟩
  exact h

/-- A sequence fails in its first half, or in its second after the first
succeeded. -/
theorem bind_error_iff {β : Type u} {m : Except ε σ} {f : σ → Except ε β} {e : ε} :
    m >>= f = .error e ↔ m = .error e ∨ ∃ a, m = .ok a ∧ f a = .error e := by
  cases m with
  | error e' =>
    refine ⟨fun h => ?_, ?_⟩
    · cases h
      exact Or.inl rfl
    · rintro (h | ⟨a, ha, -⟩)
      · cases h
        rfl
      · cases ha
  | ok a =>
    refine ⟨fun h => Or.inr ⟨a, rfl, h⟩, ?_⟩
    rintro (h | ⟨a', ha, hf⟩)
    · cases h
    · cases ha
      exact hf

/-- A loop of checks passes when every check does. -/
theorem forM_ok_iff {l : List α} {f : α → Except ε PUnit} :
    l.forM f = .ok ⟨⟩ ↔ ∀ a ∈ l, f a = .ok ⟨⟩ := by
  induction l with
  | nil => simp [pure, Except.pure]
  | cons a l ih =>
    rw [List.forM, bind_unit_ok_iff, List.forall_mem_cons, ← ih]

/-! ## Loops with early exit -/

variable {step : σ → α → Except ε σ}

/-- One more iteration at the start of a loop. -/
theorem foldlM_cons_ok {l : List α} {a : α} {s s' : σ} :
    (a :: l).foldlM step s = .ok s' ↔ ∃ t, step s a = .ok t ∧ l.foldlM step t = .ok s' := by
  rw [List.foldlM_cons, bind_ok_iff]

/-- A loop goes through one part of its list and then through the other. -/
theorem foldlM_append_ok {l l' : List α} {s s' : σ} :
    (l ++ l').foldlM step s = .ok s' ↔
      ∃ t, l.foldlM step s = .ok t ∧ l'.foldlM step t = .ok s' := by
  rw [List.foldlM_append, bind_ok_iff]

/-- One more iteration at the end of a loop. -/
theorem foldlM_concat_ok {l : List α} {a : α} {s s' : σ} :
    (l ++ [a]).foldlM step s = .ok s' ↔ ∃ t, l.foldlM step s = .ok t ∧ step t a = .ok s' := by
  rw [foldlM_append_ok]
  simp

/-- **Invariant rule.** An invariant indexed by the processed prefix, preserved
by every iteration that continues, holds of the state a completed loop ends in. -/
theorem foldlM_ok {I : List α → σ → Prop} {s : σ} (h₀ : I [] s)
    (hstep : ∀ pre a t t', I pre t → step t a = .ok t' → I (pre ++ [a]) t') :
    ∀ {l : List α} {s' : σ}, l.foldlM step s = .ok s' → I l s' := by
  intro l
  induction l using List.reverseRecOn with
  | nil =>
    intro s' h
    simp only [List.foldlM_nil] at h
    cases h
    exact h₀
  | append_singleton l a ih =>
    intro s' h
    obtain ⟨t, ht, hs⟩ := foldlM_concat_ok.mp h
    exact hstep l a t s' (ih ht) hs

/-- A loop exits early exactly when some element does, in the state the
elements before it left. -/
theorem foldlM_error_iff {l : List α} {s : σ} {e : ε} :
    l.foldlM step s = .error e ↔
      ∃ pre a post t, l = pre ++ a :: post ∧ pre.foldlM step s = .ok t ∧ step t a = .error e := by
  refine ⟨fun h => ?_, ?_⟩
  · induction l generalizing s with
    | nil => cases h
    | cons a l ih =>
      rw [List.foldlM_cons, bind_error_iff] at h
      rcases h with h | ⟨t, ht, h⟩
      · exact ⟨[], a, l, s, rfl, rfl, h⟩
      · obtain ⟨pre, b, post, t', rfl, hpre, hb⟩ := ih h
        refine ⟨a :: pre, b, post, t', rfl, ?_, hb⟩
        rw [List.foldlM_cons, bind_ok_iff]
        exact ⟨t, ht, hpre⟩
  · rintro ⟨pre, a, post, t, rfl, hpre, ha⟩
    rw [List.foldlM_append, bind_error_iff]
    refine Or.inr ⟨t, hpre, ?_⟩
    rw [List.foldlM_cons, bind_error_iff]
    exact Or.inl ha

/-! ## Justified logs -/

section Log

variable {E : Type u}

/-- Every entry of the log is justified, by `J`, by the entries before it. -/
def Justified (J : List E → E → Prop) (log : List E) : Prop :=
  ∀ before e after, log = before ++ e :: after → J before e

theorem Justified.nil {J : List E → E → Prop} : Justified J [] := by
  intro before e after h
  simp at h

/-- The log grows by one justified entry. -/
theorem Justified.concat {J : List E → E → Prop} {log : List E} {e : E}
    (h : Justified J log) (he : J log e) : Justified J (log ++ [e]) := by
  intro before e' after heq
  rcases List.eq_nil_or_concat after with rfl | ⟨after', z, rfl⟩
  · obtain ⟨h₁, h₂⟩ := List.append_inj' heq rfl
    obtain rfl : e = e' := by simpa using h₂
    rw [← h₁]
    exact he
  · have heq' : log ++ [e] = (before ++ e' :: after') ++ [z] := by simpa using heq
    obtain ⟨h₁, -⟩ := List.append_inj' heq' rfl
    exact h before e' after' h₁

/-- The log grows by a block whose entries are justified wherever the block
is cut. -/
theorem Justified.append {J : List E → E → Prop} {log block : List E}
    (h : Justified J log)
    (hb : ∀ before e after, block = before ++ e :: after → J (log ++ before) e) :
    Justified J (log ++ block) := by
  induction block using List.reverseRecOn with
  | nil => simpa using h
  | append_singleton block e ih =>
    rw [← List.append_assoc]
    refine (ih fun before e' after heq => ?_).concat (hb block e [] (by simp))
    exact hb before e' (after ++ [e]) (by simp [heq])

end Log

end Loop
