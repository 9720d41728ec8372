import Mathlib.Logic.Function.Basic

/-!
# Detached signatures

Objects that carry a signature over a digest of everything else in them. A scheme signs a
message for a name and checks a signature against a name and a message. When the check
accepts what was signed and nothing else, and no signature is good for two messages, then an
object whose digest tells its contents apart cannot be changed under its signature.
-/

namespace Signing

variable {D M S ε : Type}

/-- The check accepts exactly what was signed, and a signature belongs to one message. -/
structure Sound (sign : D → M → Except ε S) (verify : D → M → S → Except ε Unit) : Prop where
  verify_iff : ∀ d m s, verify d m s = .ok () ↔ sign d m = .ok s
  binding : ∀ {d d' m m' s}, sign d m = .ok s → sign d' m' = .ok s → m = m'

variable {O : Type}

/-- **No accepted object stays accepted when it is changed and its signature is kept.** -/
def TamperEvident (signature : O → S) (accepted : O → Prop) : Prop :=
  ∀ o o', accepted o → signature o' = signature o → o' ≠ o → ¬ accepted o'

/-- Two objects under one signature are one object, when their contents are told apart by
what is signed. -/
theorem Sound.tamperEvident {sign : D → M → Except ε S} {verify : D → M → S → Except ε Unit}
    (h : Sound sign verify) (signer : O → D) (message : O → M) {signature : O → S}
    {accepted : O → Prop}
    (haccepted : ∀ o, accepted o → verify (signer o) (message o) (signature o) = .ok ())
    (hcovers : ∀ o o', message o = message o' → signature o = signature o' → o = o') :
    TamperEvident signature accepted := by
  intro o o' ho hsignature hne ho'
  have hsigned := (h.verify_iff _ _ _).mp (haccepted o ho)
  have hsigned' := (h.verify_iff _ _ _).mp (haccepted o' ho')
  rw [← hsignature] at hsigned
  exact hne (hcovers o' o (h.binding hsigned' hsigned) hsignature)

end Signing
