import Aaf.Contracts
import Aaf.InvertedIndex

/-!
# Long-term memory and its entity index

`InMemoryLongTermStore` keeps its records in a list, and indexes them under the entities they
refer to; references into another tenant are left out.

A record goes into the index once for every reference, so a search by entity finds it as often.
It finds what a scan of the records does exactly when no such record comes up before the limit,
save in front of one like it: `agrees_with_scan_iff`.
-/

namespace Aaf

/-- One long-term memory record. -/
structure LongTermRecord where
  tenant : TenantId
  kind : String
  content : String
  payload : Json
  entityRefs : List EntityRefLite

/-- `InMemoryLongTermStore`. -/
structure InMemoryLongTermStore where
  records : List LongTermRecord
  /-- the positions of records, by tenant and entity -/
  entityIndex : HashMap (TenantId × String) (List ℕ)

namespace LongTermRecord

/-- A reference into another tenant, which is not indexed. -/
def crossTenant (record : LongTermRecord) (ent : EntityRefLite) : Bool :=
  match ent.tenant with
  | some rt => decide (rt ≠ record.tenant)
  | none => false

/-- The references of a record to an entity, those into another tenant left out. -/
def refCount (record : LongTermRecord) (entityId : String) : ℕ :=
  record.entityRefs.countP fun ent =>
    !record.crossTenant ent && decide (ent.entityId = entityId)

/-- A record of the tenant with a reference to the entity. -/
def Carries (record : LongTermRecord) (tenant : TenantId) (entityId : String) : Prop :=
  record.tenant = tenant ∧ ∃ ent ∈ record.entityRefs, ent.entityId = entityId ∧
    (ent.tenant = none ∨ ent.tenant = some record.tenant)

instance (record : LongTermRecord) (tenant : TenantId) (entityId : String) :
    Decidable (record.Carries tenant entityId) :=
  inferInstanceAs (Decidable (_ ∧ _))

end LongTermRecord

namespace InMemoryLongTermStore

/-- `InMemoryLongTermStore::new`. -/
def new : InMemoryLongTermStore := ⟨[], ∅⟩

/-- One turn of the loop of `insert`. -/
def indexRef (record : LongTermRecord) (idx : ℕ)
    (index : HashMap (TenantId × String) (List ℕ)) (ent : EntityRefLite) :
    HashMap (TenantId × String) (List ℕ) :=
  if record.crossTenant ent then index
  else
    index.insert (record.tenant, ent.entityId)
      ((index.lookup (record.tenant, ent.entityId)).getD [] ++ [idx])

/-- `InMemoryLongTermStore::insert`. -/
def insert (store : InMemoryLongTermStore) (record : LongTermRecord) : InMemoryLongTermStore where
  records := store.records ++ [record]
  entityIndex :=
    record.entityRefs.foldl (indexRef record store.records.length) store.entityIndex

/-- `InMemoryLongTermStore::search_by_entity`. -/
def searchByEntity (store : InMemoryLongTermStore) (tenant : TenantId) (entity : EntityRefLite)
    (limit : ℕ) : List LongTermRecord :=
  match store.entityIndex.lookup (tenant, entity.entityId) with
  | none => []
  | some indices =>
    ((indices.filterMap fun idx => store.records[idx]?).filter
      fun r => decide (r.tenant = tenant)).take limit

/-- The store after the records have been inserted. -/
def after (records : List LongTermRecord) : InMemoryLongTermStore := records.foldl insert new

/-- What a scan of the records finds. -/
def scan (records : List LongTermRecord) (tenant : TenantId) (entity : EntityRefLite) :
    List LongTermRecord :=
  records.filter fun r => decide (r.Carries tenant entity.entityId)

end InMemoryLongTermStore

/-! ## The index -/

namespace LongTermRecord

open InvertedIndex

/-- The keys that a record is indexed under. -/
def keys (record : LongTermRecord) : List (TenantId × String) :=
  (record.entityRefs.filter fun ent => !record.crossTenant ent).map
    fun ent => (record.tenant, ent.entityId)

theorem crossTenant_eq_false_iff {record : LongTermRecord} {ent : EntityRefLite} :
    record.crossTenant ent = false ↔ ent.tenant = none ∨ ent.tenant = some record.tenant := by
  rw [crossTenant]
  cases ent.tenant <;> simp

theorem occurrences_keys (record : LongTermRecord) (tenant : TenantId) (entityId : String) :
    occurrences record.keys (tenant, entityId) =
      if record.tenant = tenant then record.refCount entityId else 0 := by
  rw [occurrences, keys, List.countP_map, List.countP_filter, refCount]
  split_ifs with htenant
  · refine List.countP_congr fun ent _ => ?_
    simp [htenant, and_comm]
  · refine List.countP_eq_zero.mpr fun ent _ => ?_
    simp [htenant]

theorem refCount_pos_iff {record : LongTermRecord} {entityId : String} :
    0 < record.refCount entityId ↔ ∃ ent ∈ record.entityRefs, ent.entityId = entityId ∧
      (ent.tenant = none ∨ ent.tenant = some record.tenant) := by
  rw [refCount, List.countP_pos_iff]
  refine exists_congr fun ent => and_congr_right fun _ => ?_
  rw [Bool.and_eq_true, Bool.not_eq_true', crossTenant_eq_false_iff, decide_eq_true_iff, and_comm]

/-- A record is indexed under a key when it carries a reference. -/
theorem occurrences_keys_pos_iff {record : LongTermRecord} {tenant : TenantId}
    {entityId : String} :
    0 < occurrences record.keys (tenant, entityId) ↔ record.Carries tenant entityId := by
  rw [occurrences_keys, Carries, ← refCount_pos_iff]
  split_ifs with htenant
  · exact (and_iff_right htenant).symm
  · exact iff_of_false (lt_irrefl 0) fun h => htenant h.1

end LongTermRecord

namespace InMemoryLongTermStore

open InvertedIndex

theorem foldl_indexRef (record : LongTermRecord) (idx : ℕ)
    (index : HashMap (TenantId × String) (List ℕ)) :
    record.entityRefs.foldl (indexRef record idx) index = pushAll index record.keys idx := by
  rw [pushAll, LongTermRecord.keys, List.foldl_map]
  induction record.entityRefs generalizing index with
  | nil => rfl
  | cons ent refs ih =>
    rw [List.foldl_cons, ih, List.filter_cons, indexRef]
    cases record.crossTenant ent <;> rfl

theorem records_after (records : List LongTermRecord) : (after records).records = records := by
  rw [after]
  induction records using List.reverseRecOn with
  | nil => rfl
  | append_singleton records record ih =>
    rw [List.foldl_append, List.foldl_cons, List.foldl_nil, insert, ih]

theorem indexed_after (records : List LongTermRecord) :
    Indexed LongTermRecord.keys (after records).entityIndex records := by
  induction records using List.reverseRecOn with
  | nil => exact Indexed.empty
  | append_singleton records record ih =>
    have hconcat := ih.concat record
    rw [after, List.foldl_append, List.foldl_cons, List.foldl_nil, insert, foldl_indexRef,
      ← after, records_after]
    exact hconcat

variable {records : List LongTermRecord} {tenant : TenantId} {entity : EntityRefLite}

theorem mem_scan {r : LongTermRecord} :
    r ∈ scan records tenant entity ↔ r ∈ records ∧ r.Carries tenant entity.entityId := by
  rw [scan, List.mem_filter, decide_eq_true_iff]

/-- **A search by entity** finds what the scan finds, each record as often as it has references to
the entity. -/
theorem searchByEntity_after (records : List LongTermRecord) (tenant : TenantId)
    (entity : EntityRefLite) (limit : ℕ) :
    (after records).searchByEntity tenant entity limit =
      (repeated (fun r => r.refCount entity.entityId) (scan records tenant entity)).take limit := by
  have hhits := (indexed_after records).hits (tenant, entity.entityId)
  have hscan : repeated (fun r => occurrences r.keys (tenant, entity.entityId)) records =
      repeated (fun r => occurrences r.keys (tenant, entity.entityId))
        (scan records tenant entity) :=
    repeated_filter fun r _ => LongTermRecord.occurrences_keys_pos_iff.trans decide_eq_true_iff.symm
  have hcount : repeated (fun r => occurrences r.keys (tenant, entity.entityId))
        (scan records tenant entity) =
      repeated (fun r => r.refCount entity.entityId) (scan records tenant entity) := by
    refine repeated_congr fun r hr => ?_
    rw [LongTermRecord.occurrences_keys, if_pos (mem_scan.mp hr).2.1]
  have htenant : (repeated (fun r => r.refCount entity.entityId)
        (scan records tenant entity)).filter (fun r => decide (r.tenant = tenant)) =
      repeated (fun r => r.refCount entity.entityId) (scan records tenant entity) := by
    refine List.filter_eq_self.mpr fun r hr => decide_eq_true ?_
    exact (mem_scan.mp (mem_repeated.mp hr).1).2.1
  rw [hscan, hcount] at hhits
  rw [searchByEntity, records_after]
  cases hlookup : (after records).entityIndex.lookup (tenant, entity.entityId) with
  | none =>
    rw [hlookup, Option.getD_none, List.filterMap_nil] at hhits
    rw [← hhits, List.take_nil]
  | some indices =>
    rw [hlookup, Option.getD_some] at hhits
    dsimp only
    rw [hhits, htenant]

/-- **The index and the scan.** A search by entity finds the first `limit` records of the scan,
and no record of another tenant. -/
structure AgreesWithScan (records : List LongTermRecord) (tenant : TenantId)
    (entity : EntityRefLite) (limit : ℕ) : Prop where
  hits : (after records).searchByEntity tenant entity limit =
    (scan records tenant entity).take limit
  tenants : ∀ r ∈ (after records).searchByEntity tenant entity limit, r.tenant = tenant

/-- No search finds a record of another tenant. -/
theorem tenant_of_mem_searchByEntity {limit : ℕ} {r : LongTermRecord}
    (h : r ∈ (after records).searchByEntity tenant entity limit) : r.tenant = tenant := by
  rw [searchByEntity_after] at h
  exact (mem_scan.mp (mem_repeated.mp (List.mem_of_mem_take h)).1).2.1

/-- **They agree exactly when** each record of the scan that comes up before the limit has one
reference to the entity, or is followed by one like it. -/
theorem agrees_with_scan_iff (records : List LongTermRecord) (tenant : TenantId)
    (entity : EntityRefLite) (limit : ℕ) :
    AgreesWithScan records tenant entity limit ↔
      ∀ j r, (scan records tenant entity)[j]? = some r → j + 1 < limit →
        r.refCount entity.entityId = 1 ∨ (scan records tenant entity)[j + 1]? = some r := by
  have hpos : ∀ r ∈ scan records tenant entity, 0 < r.refCount entity.entityId :=
    fun r hr => LongTermRecord.refCount_pos_iff.mpr (mem_scan.mp hr).2.2
  have hiff := take_repeated_iff hpos limit
  rw [← searchByEntity_after] at hiff
  exact ⟨fun h => hiff.mp h.hits, fun h => ⟨hiff.mpr h, fun r => tenant_of_mem_searchByEntity⟩⟩

namespace SampleMemory

/-- A reference to an order. -/
def order (localId : String) : EntityRefLite := ⟨"commerce.Order", ⟨0, 1, 0⟩, none, some localId⟩

/-- A record about two orders. -/
def swap : LongTermRecord :=
  ⟨⟨"tenant-a"⟩, "episodic", "order 1 was exchanged for order 2", .null, [order "1", order "2"]⟩

end SampleMemory

/-- The record is found twice. -/
theorem found_twice :
    (after [SampleMemory.swap]).searchByEntity ⟨"tenant-a"⟩ (SampleMemory.order "1") 10 =
        [SampleMemory.swap, SampleMemory.swap] ∧
      scan [SampleMemory.swap] ⟨"tenant-a"⟩ (SampleMemory.order "1") = [SampleMemory.swap] ∧
      ¬ AgreesWithScan [SampleMemory.swap] ⟨"tenant-a"⟩ (SampleMemory.order "1") 10 := by
  have hscan : scan [SampleMemory.swap] ⟨"tenant-a"⟩ (SampleMemory.order "1") =
      [SampleMemory.swap] := by rfl
  have hhits : (after [SampleMemory.swap]).searchByEntity ⟨"tenant-a"⟩
      (SampleMemory.order "1") 10 = [SampleMemory.swap, SampleMemory.swap] := by rfl
  refine ⟨hhits, hscan, fun h => ?_⟩
  have hagree := h.hits
  rw [hhits, hscan] at hagree
  exact absurd (congrArg List.length hagree) (by decide)

end InMemoryLongTermStore

end Aaf
