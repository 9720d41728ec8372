import Aaf.Contracts
import Aaf.KeyRenaming

/-!
# Field-renaming translators

`FieldRenamingTranslator` renames the fields of an object: AAF names to the names of a service,
and back. A field whose name is not in the mapping keeps its name, which may be one that the
mapping gives to another field.

So a value comes back from the service exactly when it has no such field, and then it had as
many fields there; and the same holds the other way round: `lossless_iff`.
-/

namespace Aaf

/-- A JSON value as a translator sees it: an object, whose fields are in the order of their names,
or any other value. What fields hold (in `V`) and other values (in `S`) are only copied. -/
inductive FieldValue (V S : Type) : Type where
  | object (fields : Std.ExtTreeMap String V) : FieldValue V S
  | other (value : S) : FieldValue V S

namespace FieldValue

variable {V S : Type}

/-- The value is an object with a field of the name. -/
def HasField : FieldValue V S → String → Prop
  | object fields, name => name ∈ fields
  | other _, _ => False

/-- The number of its fields. -/
def fieldCount : FieldValue V S → ℕ
  | object fields => fields.size
  | other _ => 0

end FieldValue

/-- `FieldRenamingTranslator`. -/
structure FieldRenamingTranslator where
  entity : String
  aafToService : HashMap String String
  serviceToAaf : HashMap String String

namespace FieldRenamingTranslator

/-- One pair of an AAF name and a service name. -/
def addMapping (t : FieldRenamingTranslator) (mapping : String × String) :
    FieldRenamingTranslator where
  entity := t.entity
  aafToService := t.aafToService.insert mapping.1 mapping.2
  serviceToAaf := t.serviceToAaf.insert mapping.2 mapping.1

/-- `FieldRenamingTranslator::new`. -/
def new (entity : String) (mappings : List (String × String)) : FieldRenamingTranslator :=
  mappings.foldl addMapping ⟨entity, ∅, ∅⟩

/-- The name that a mapping gives to a field. -/
def newName (mapping : HashMap String String) (name : String) : String :=
  (mapping.lookup name).getD name

section Translate

variable {V S : Type}

/-- `FieldRenamingTranslator::rename`. -/
def rename (value : FieldValue V S) (mapping : HashMap String String) : FieldValue V S :=
  match value with
  | .object fields => .object (KeyRenaming.rename (newName mapping) fields)
  | .other v => .other v

/-- `to_service`, which always succeeds. -/
def toService (t : FieldRenamingTranslator) (value : FieldValue V S) : FieldValue V S :=
  rename value t.aafToService

/-- `to_aaf`, which always succeeds. -/
def toAaf (t : FieldRenamingTranslator) (value : FieldValue V S) : FieldValue V S :=
  rename value t.serviceToAaf

end Translate

/-! ## The two mappings -/

/-- A table that is made of pairs. -/
def tableOf (pairs : List (String × String)) : HashMap String String :=
  pairs.foldl (fun table pair => table.insert pair.1 pair.2) ∅

theorem tables_new (entity : String) (mappings : List (String × String)) :
    new entity mappings = ⟨entity, tableOf mappings, tableOf (mappings.map Prod.swap)⟩ := by
  rw [new]
  induction mappings using List.reverseRecOn with
  | nil => rfl
  | append_singleton mappings last ih =>
    rw [List.foldl_append, ih, List.foldl_cons, List.foldl_nil, addMapping, tableOf, tableOf,
      tableOf, tableOf, List.map_append, List.foldl_append, List.foldl_append]
    rfl

/-- With distinct keys every pair is found. -/
theorem lookup_tableOf {pairs : List (String × String)} (h : (pairs.map Prod.fst).Nodup)
    (name other : String) : (tableOf pairs).lookup name = some other ↔ (name, other) ∈ pairs := by
  rw [tableOf]
  induction pairs using List.reverseRecOn with
  | nil => simp
  | append_singleton pairs last ih =>
    obtain ⟨key, value⟩ := last
    rw [List.map_append, List.map_singleton, List.nodup_append] at h
    obtain ⟨hfirst, -, hlast⟩ := h
    rw [List.foldl_append, List.foldl_cons, List.foldl_nil]
    by_cases hname : name = key
    · subst hname
      have hnot : (name, other) ∉ pairs := fun hmem =>
        hlast name (List.mem_map_of_mem hmem) name (List.mem_singleton_self _) rfl
      rw [AList.lookup_insert, Option.some_inj]
      simp [hnot, eq_comm]
    · rw [AList.lookup_insert_ne hname, ih hfirst]
      simp [hname]

/-- The mappings take each other's names back. -/
def Inverse (forth back : HashMap String String) : Prop :=
  ∀ a s, forth.lookup a = some s ↔ back.lookup s = some a

theorem Inverse.symm {forth back : HashMap String String} (h : Inverse forth back) :
    Inverse back forth := fun s a => (h a s).symm

section New

variable {entity : String} {mappings : List (String × String)}

theorem lookup_aafToService (haaf : (mappings.map Prod.fst).Nodup) (name s : String) :
    (new entity mappings).aafToService.lookup name = some s ↔ (name, s) ∈ mappings := by
  rw [tables_new]
  exact lookup_tableOf haaf name s

theorem lookup_serviceToAaf (hservice : (mappings.map Prod.snd).Nodup) (name a : String) :
    (new entity mappings).serviceToAaf.lookup name = some a ↔ (a, name) ∈ mappings := by
  have hnodup : ((mappings.map Prod.swap).map Prod.fst).Nodup := by
    rw [List.map_map]
    exact hservice
  rw [tables_new]
  refine (lookup_tableOf hnodup name a).trans ?_
  simp

theorem inverse_new (haaf : (mappings.map Prod.fst).Nodup)
    (hservice : (mappings.map Prod.snd).Nodup) :
    Inverse (new entity mappings).aafToService (new entity mappings).serviceToAaf :=
  fun a s => (lookup_aafToService haaf a s).trans (lookup_serviceToAaf hservice s a).symm

theorem aafToService_eq_none_iff (haaf : (mappings.map Prod.fst).Nodup) {name : String} :
    (new entity mappings).aafToService.lookup name = none ↔ name ∉ mappings.map Prod.fst := by
  rw [Option.eq_none_iff_forall_ne_some]
  simp [lookup_aafToService haaf]

theorem serviceToAaf_eq_none_iff (hservice : (mappings.map Prod.snd).Nodup) {name : String} :
    (new entity mappings).serviceToAaf.lookup name = none ↔ name ∉ mappings.map Prod.snd := by
  rw [Option.eq_none_iff_forall_ne_some]
  simp [lookup_serviceToAaf hservice]

end New

/-! ## There and back -/

section Inverse

variable {V S : Type} {forth back : HashMap String String}

/-- A name comes back unless it is kept and is the new name of another one. -/
theorem newName_newName_iff (h : Inverse forth back) {name : String} :
    newName back (newName forth name) = name ↔
      (forth.lookup name = none → back.lookup name = none) := by
  rw [newName, newName]
  cases hforth : forth.lookup name with
  | some s => simp [(h name s).mp hforth]
  | none =>
    cases hback : back.lookup name with
    | none => simp [hback]
    | some a =>
      simp only [Option.getD_none, hback, Option.getD_some, reduceCtorEq, imp_false, not_true,
        iff_false]
      rintro rfl
      rw [(h a a).mpr hback] at hforth
      cases hforth

/-- A kept name that is the new name of another one is not given to any field. -/
theorem ne_newName (h : Inverse forth back) {name : String} (hforth : forth.lookup name = none)
    (hback : back.lookup name ≠ none) (other : String) : newName back other ≠ name := by
  rw [newName]
  cases hother : back.lookup other with
  | none =>
    rintro rfl
    exact hback hother
  | some a =>
    rintro rfl
    rw [Option.getD_some, (h a other).mpr hother] at hforth
    cases hforth

/-- Fields that keep their names have names that no other field gets. -/
def Unambiguous (forth back : HashMap String String) (v : FieldValue V S) : Prop :=
  ∀ name, v.HasField name → forth.lookup name = none → back.lookup name = none

theorem rename_rename_iff (h : Inverse forth back) (v : FieldValue V S) :
    rename (rename v forth) back = v ↔ Unambiguous forth back v := by
  cases v with
  | other v => exact iff_of_true rfl fun name hname => hname.elim
  | object fields =>
    rw [rename, rename, FieldValue.object.injEq]
    refine ⟨fun heq name hname hforth => ?_, fun hfields => ?_⟩
    · by_contra hback
      have hmem : name ∈ KeyRenaming.rename (newName back)
          (KeyRenaming.rename (newName forth) fields) := by
        rw [heq]
        exact hname
      obtain ⟨other, -, hother⟩ := KeyRenaming.mem_rename.mp hmem
      exact ne_newName h hforth hback other hother
    · exact KeyRenaming.rename_rename fun name hname =>
        (newName_newName_iff h).mpr (hfields name hname)

theorem fieldCount_rename (h : Inverse forth back) {v : FieldValue V S}
    (hv : Unambiguous forth back v) : (rename v forth).fieldCount = v.fieldCount := by
  cases v with
  | other v => rfl
  | object fields =>
    refine KeyRenaming.size_rename fun a ha b hb hab => ?_
    rw [← (newName_newName_iff h).mpr (hv a ha), hab, (newName_newName_iff h).mpr (hv b hb)]

end Inverse

/-- **The round trips of a translator**: an AAF value comes back from the service, where it has as
many fields, exactly when every field of it that is not an AAF name is not a service name either;
and a service value comes back exactly when it is so the other way round. -/
structure RoundTrips (V S : Type) (entity : String) (mappings : List (String × String)) : Prop where
  aaf : ∀ v : FieldValue V S,
    ((new entity mappings).toAaf ((new entity mappings).toService v) = v ∧
        ((new entity mappings).toService v).fieldCount = v.fieldCount) ↔
      ∀ name, v.HasField name → name ∉ mappings.map Prod.fst → name ∉ mappings.map Prod.snd
  service : ∀ w : FieldValue V S,
    (new entity mappings).toService ((new entity mappings).toAaf w) = w ↔
      ∀ name, w.HasField name → name ∉ mappings.map Prod.snd → name ∉ mappings.map Prod.fst

/-- **When renaming loses nothing**, for all mappings of distinct names to distinct names. -/
theorem lossless_iff (V S : Type) (entity : String) {mappings : List (String × String)}
    (haaf : (mappings.map Prod.fst).Nodup) (hservice : (mappings.map Prod.snd).Nodup) :
    RoundTrips V S entity mappings where
  aaf v := by
    have hinverse := @inverse_new entity mappings haaf hservice
    have hback := rename_rename_iff hinverse v
    rw [Unambiguous] at hback
    simp only [aafToService_eq_none_iff haaf, serviceToAaf_eq_none_iff hservice] at hback
    refine ⟨fun h => hback.mp h.1, fun h => ⟨hback.mpr h, ?_⟩⟩
    exact fieldCount_rename hinverse ((rename_rename_iff hinverse v).mp (hback.mpr h))
  service w := by
    have hback := rename_rename_iff (@inverse_new entity mappings haaf hservice).symm w
    rw [Unambiguous] at hback
    simp only [aafToService_eq_none_iff haaf, serviceToAaf_eq_none_iff hservice] at hback
    exact hback

namespace SampleTranslator

def mappings : List (String × String) :=
  [("name", "account_name"), ("segment", "industry"), ("lifetime_value", "total_revenue")]

/-- A customer with a field that has the name of a service field. -/
def customer : FieldValue ℕ Unit :=
  .object ((∅ : Std.ExtTreeMap String ℕ).insert "account_name" 1 |>.insert "name" 2)

end SampleTranslator

theorem lossless_iff_sample : RoundTrips ℕ Unit "commerce.Customer" SampleTranslator.mappings :=
  lossless_iff ℕ Unit "commerce.Customer" (by decide) (by decide)

/-- Of the two fields one is left at the service, and the customer does not come back. -/
theorem field_lost :
    (SampleTranslator.mappings.map Prod.fst).Nodup ∧
      (SampleTranslator.mappings.map Prod.snd).Nodup ∧
      SampleTranslator.customer.fieldCount = 2 ∧
      ((new "commerce.Customer" SampleTranslator.mappings).toService
        SampleTranslator.customer).fieldCount = 1 ∧
      (new "commerce.Customer" SampleTranslator.mappings).toAaf
        ((new "commerce.Customer" SampleTranslator.mappings).toService
          SampleTranslator.customer) ≠ SampleTranslator.customer := by
  refine ⟨by decide, by decide, by decide +kernel, by decide +kernel, fun h => ?_⟩
  have hcount := congrArg FieldValue.fieldCount h
  exact absurd hcount (by decide +kernel)

end FieldRenamingTranslator

end Aaf
