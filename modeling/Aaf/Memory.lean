import Aaf.Checkpoints
import Aaf.EntityIndex
import Aaf.Isolation
import Aaf.Node
import Aaf.Proposals

/-!
# The memory layers

`MemoryFacade` over its four in-memory stores (`aaf-memory`, `aaf-storage`): working memory by
task and key, threads of messages, long-term records with their entity index, artifacts by id.

The facade computes a memory that has no index and no common list of records, but for every
tenant a list of its own (`facade_refines`), and so every run of it is answered as that memory
answers it (`replies_eq`). Each call has one owner, and what the owners of a set are answered
does not depend on the others: `answers_isolated`.
-/

namespace Aaf

open Isolation Machine

/-! ## The stores -/

/-- `InMemoryWorkingStore`. -/
abbrev InMemoryWorkingStore : Type := HashMap TaskId (HashMap String Json)

namespace InMemoryWorkingStore

/-- `put`. -/
def put (s : InMemoryWorkingStore) (task : TaskId) (key : String) (value : Json) :
    InMemoryWorkingStore :=
  s.insert task (((s.lookup task).getD ∅).insert key value)

/-- `get`. -/
def get (s : InMemoryWorkingStore) (task : TaskId) (key : String) : Option Json :=
  (s.lookup task).bind fun m => m.lookup key

/-- `drop_task`. -/
def dropTask (s : InMemoryWorkingStore) (task : TaskId) : InMemoryWorkingStore := s.erase task

end InMemoryWorkingStore

/-- `InMemoryThreadStore`. -/
abbrev InMemoryThreadStore : Type := HashMap String (List Json)

namespace InMemoryThreadStore

/-- `append`. -/
def append (s : InMemoryThreadStore) (thread : String) (value : Json) : InMemoryThreadStore :=
  s.insert thread ((s.lookup thread).getD [] ++ [value])

/-- `read`. -/
def read (s : InMemoryThreadStore) (thread : String) : List Json := (s.lookup thread).getD []

/-- `drop_thread`. -/
def dropThread (s : InMemoryThreadStore) (thread : String) : InMemoryThreadStore := s.erase thread

end InMemoryThreadStore

/-- The filter of `InMemoryLongTermStore::search`; what `to_lowercase` does is given. -/
def LongTermRecord.matchesQuery (toLowercase : String → String) (query : String)
    (r : LongTermRecord) : Bool :=
  (Text.splitWhitespace (toLowercase query)).all fun t => Text.contains (toLowercase r.content) t

/-- `InMemoryLongTermStore::search`. -/
def InMemoryLongTermStore.search (toLowercase : String → String) (store : InMemoryLongTermStore)
    (tenant : TenantId) (query : String) (limit : ℕ) : List LongTermRecord :=
  ((store.records.filter fun r => decide (r.tenant = tenant)).filter
    (LongTermRecord.matchesQuery toLowercase query)).take limit

/-- `InMemoryArtifactStore`, of artifacts of a type `A`: it looks at their ids only. -/
abbrev InMemoryArtifactStore (A : Type) : Type := HashMap ArtifactId A

namespace InMemoryArtifactStore

variable {A : Type}

/-- `put`: an artifact replaces the one at its id. -/
def put (artifactId : A → ArtifactId) (s : InMemoryArtifactStore A) (artifact : A) :
    InMemoryArtifactStore A :=
  s.insert (artifactId artifact) artifact

/-- `get`. -/
def get (s : InMemoryArtifactStore A) (id : ArtifactId) : Except StorageError A :=
  match s.lookup id with
  | some artifact => .ok artifact
  | none => .error (.notFound id.raw)

end InMemoryArtifactStore

/-! ## The facade -/

/-- `MemoryFacade`, with its in-memory backends. -/
structure MemoryFacade (A : Type) where
  working : InMemoryWorkingStore
  thread : InMemoryThreadStore
  longterm : InMemoryLongTermStore
  artifacts : InMemoryArtifactStore A

/-- `MemoryFacade::in_memory`. -/
def MemoryFacade.inMemory (A : Type) : MemoryFacade A := ⟨∅, ∅, .new, ∅⟩

/-- The calls on a facade and on the stores it hands out. -/
inductive MemoryCall (A : Type) : Type where
  | workingGet (task : TaskId) (key : String) : MemoryCall A
  | workingPut (task : TaskId) (key : String) (v : Json) : MemoryCall A
  | workingClear (task : TaskId) : MemoryCall A
  | threadAppend (thread : String) (v : Json) : MemoryCall A
  | threadRead (thread : String) : MemoryCall A
  | dropThread (thread : String) : MemoryCall A
  | longtermInsert (record : LongTermRecord) : MemoryCall A
  | longtermSearch (tenant : TenantId) (query : String) (limit : ℕ) : MemoryCall A
  | longtermSearchByEntity (tenant : TenantId) (entity : EntityRefLite) (limit : ℕ) : MemoryCall A
  | artifactPut (artifact : A) : MemoryCall A
  | artifactGet (id : ArtifactId) : MemoryCall A

/-- What a call answers. -/
inductive MemoryReply (A : Type) : Type where
  | done : MemoryReply A
  | value (v : Option Json) : MemoryReply A
  | messages (vs : List Json) : MemoryReply A
  | records (rs : List LongTermRecord) : MemoryReply A
  | artifact (r : Except StorageError A) : MemoryReply A

/-- Whose memory a call is about. -/
inductive MemoryOwner : Type where
  | task (task : TaskId) : MemoryOwner
  | thread (thread : String) : MemoryOwner
  | tenant (tenant : TenantId) : MemoryOwner
  | artifact (id : ArtifactId) : MemoryOwner

section Calls

variable {A : Type} (artifactId : A → ArtifactId) (toLowercase : String → String)

/-- The owner of a call. -/
def MemoryCall.owner : MemoryCall A → MemoryOwner
  | .workingGet task _ | .workingPut task _ _ | .workingClear task => .task task
  | .threadAppend thread _ | .threadRead thread | .dropThread thread => .thread thread
  | .longtermInsert record => .tenant record.tenant
  | .longtermSearch tenant _ _ | .longtermSearchByEntity tenant _ _ => .tenant tenant
  | .artifactPut artifact => .artifact (artifactId artifact)
  | .artifactGet id => .artifact id

/-- One call on the facade. -/
def MemoryFacade.exec (m : MemoryFacade A) : MemoryCall A → MemoryReply A × MemoryFacade A
  | .workingGet task key => (.value (m.working.get task key), m)
  | .workingPut task key v => (.done, { m with working := m.working.put task key v })
  | .workingClear task => (.done, { m with working := m.working.dropTask task })
  | .threadAppend thread v => (.done, { m with thread := m.thread.append thread v })
  | .threadRead thread => (.messages (m.thread.read thread), m)
  | .dropThread thread => (.done, { m with thread := m.thread.dropThread thread })
  | .longtermInsert record => (.done, { m with longterm := m.longterm.insert record })
  | .longtermSearch tenant query limit =>
    (.records (m.longterm.search toLowercase tenant query limit), m)
  | .longtermSearchByEntity tenant entity limit =>
    (.records (m.longterm.searchByEntity tenant entity limit), m)
  | .artifactPut artifact => (.done, { m with artifacts := m.artifacts.put artifactId artifact })
  | .artifactGet id => (.artifact (m.artifacts.get id), m)

end Calls

/-! ## A memory of owners -/

/-- What the facade is for: every task has its values, every thread its messages, every tenant its
records, every id its artifact. -/
structure Memory (A : Type) where
  values : TaskId → String → Option Json
  messages : String → List Json
  records : TenantId → List LongTermRecord
  artifacts : ArtifactId → Option A

namespace Memory

variable {A : Type} (artifactId : A → ArtifactId) (toLowercase : String → String)

/-- Nothing is in it. -/
def empty (A : Type) : Memory A := ⟨fun _ _ => none, fun _ => [], fun _ => [], fun _ => none⟩

/-- One call. A search by entity finds a record as often as it refers to the entity. -/
def exec (m : Memory A) : MemoryCall A → MemoryReply A × Memory A
  | .workingGet task key => (.value (m.values task key), m)
  | .workingPut task key v =>
    (.done, { m with
      values := Function.update m.values task (Function.update (m.values task) key (some v)) })
  | .workingClear task =>
    (.done, { m with values := Function.update m.values task fun _ => none })
  | .threadAppend thread v =>
    (.done, { m with messages := Function.update m.messages thread (m.messages thread ++ [v]) })
  | .threadRead thread => (.messages (m.messages thread), m)
  | .dropThread thread => (.done, { m with messages := Function.update m.messages thread [] })
  | .longtermInsert r =>
    (.done, { m with records := Function.update m.records r.tenant (m.records r.tenant ++ [r]) })
  | .longtermSearch tenant query limit =>
    (.records (((m.records tenant).filter
      (LongTermRecord.matchesQuery toLowercase query)).take limit), m)
  | .longtermSearchByEntity tenant entity limit =>
    (.records ((InvertedIndex.repeated (fun r => r.refCount entity.entityId)
      (InMemoryLongTermStore.scan (m.records tenant) tenant entity)).take limit), m)
  | .artifactPut artifact =>
    (.done, { m with
      artifacts := Function.update m.artifacts (artifactId artifact) (some artifact) })
  | .artifactGet id =>
    (.artifact (match m.artifacts id with
      | some artifact => .ok artifact
      | none => .error (.notFound id.raw)), m)

/-- The owners of a set have the same in both. -/
structure Same (mine : MemoryOwner → Bool) (m m' : Memory A) : Prop where
  values : ∀ task, mine (.task task) = true → m.values task = m'.values task
  messages : ∀ thread, mine (.thread thread) = true → m.messages thread = m'.messages thread
  records : ∀ tenant, mine (.tenant tenant) = true → m.records tenant = m'.records tenant
  artifacts : ∀ id, mine (.artifact id) = true → m.artifacts id = m'.artifacts id

end Memory

/-! ## What each store keeps -/

namespace InMemoryWorkingStore

theorem get_put (s : InMemoryWorkingStore) (task : TaskId) (key : String) (v : Json) :
    (s.put task key v).get =
      Function.update s.get task (Function.update (s.get task) key (some v)) := by
  funext task' key'
  by_cases htask : task' = task
  · subst htask
    rw [get, put, AList.lookup_insert, Option.bind_some, Function.update_self]
    by_cases hkey : key' = key
    · subst hkey
      rw [AList.lookup_insert, Function.update_self]
    · rw [AList.lookup_insert_ne hkey, Function.update_of_ne hkey, get]
      cases s.lookup task' <;> rfl
  · rw [get, put, AList.lookup_insert_ne htask, Function.update_of_ne htask, get]

theorem get_dropTask (s : InMemoryWorkingStore) (task : TaskId) :
    (s.dropTask task).get = Function.update s.get task fun _ => none := by
  funext task' key'
  by_cases htask : task' = task
  · subst htask
    rw [get, dropTask, AList.lookup_erase, Function.update_self]
    rfl
  · rw [get, dropTask, AList.lookup_erase_ne htask, Function.update_of_ne htask, get]

end InMemoryWorkingStore

namespace InMemoryThreadStore

theorem read_append (s : InMemoryThreadStore) (thread : String) (v : Json) :
    (s.append thread v).read = Function.update s.read thread (s.read thread ++ [v]) := by
  funext thread'
  by_cases hthread : thread' = thread
  · subst hthread
    rw [read, append, AList.lookup_insert, Function.update_self]
    rfl
  · rw [read, append, AList.lookup_insert_ne hthread, Function.update_of_ne hthread, read]

theorem read_dropThread (s : InMemoryThreadStore) (thread : String) :
    (s.dropThread thread).read = Function.update s.read thread [] := by
  funext thread'
  by_cases hthread : thread' = thread
  · subst hthread
    rw [read, dropThread, AList.lookup_erase, Function.update_self]
    rfl
  · rw [read, dropThread, AList.lookup_erase_ne hthread, Function.update_of_ne hthread, read]

end InMemoryThreadStore

namespace InMemoryLongTermStore

/-- The records of a tenant, in the order in which they came in. -/
def recordsOf (store : InMemoryLongTermStore) (tenant : TenantId) : List LongTermRecord :=
  store.records.filter fun r => decide (r.tenant = tenant)

theorem recordsOf_insert (store : InMemoryLongTermStore) (r : LongTermRecord) :
    (store.insert r).recordsOf =
      Function.update store.recordsOf r.tenant (store.recordsOf r.tenant ++ [r]) := by
  funext tenant
  by_cases htenant : tenant = r.tenant
  · subst htenant
    simp [recordsOf, insert]
  · simp [recordsOf, insert, Function.update_of_ne htenant, Ne.symm htenant]

theorem insert_after (records : List LongTermRecord) (r : LongTermRecord) :
    (after records).insert r = after (records ++ [r]) := by
  rw [after, after, List.foldl_append, List.foldl_cons, List.foldl_nil]

/-- A tenant's own records are all that a scan for it looks at. -/
theorem scan_recordsOf (store : InMemoryLongTermStore) (tenant : TenantId)
    (entity : EntityRefLite) :
    scan (store.recordsOf tenant) tenant entity = scan store.records tenant entity := by
  rw [scan, scan, recordsOf, List.filter_filter]
  refine List.filter_congr fun r _ => ?_
  rw [← Bool.decide_and, decide_eq_decide]
  exact and_iff_left_of_imp fun h => h.1

end InMemoryLongTermStore

/-! ## Refinement -/

namespace MemoryFacade

variable {A : Type} (artifactId : A → ArtifactId) (toLowercase : String → String)

/-- The memory that a facade stands for. -/
def memory (m : MemoryFacade A) : Memory A :=
  ⟨m.working.get, m.thread.read, m.longterm.recordsOf, m.artifacts.lookup⟩

/-- The entity index is the one that insertions make. -/
def Indexed (m : MemoryFacade A) : Prop :=
  m.longterm = .after m.longterm.records

theorem indexed_inMemory (A : Type) : (inMemory A).Indexed := rfl

theorem memory_inMemory (A : Type) : (inMemory A).memory = .empty A := rfl

variable {artifactId toLowercase}

theorem indexed_exec {m : MemoryFacade A} (h : m.Indexed) (call : MemoryCall A) :
    (m.exec artifactId toLowercase call).2.Indexed := by
  cases call with
  | longtermInsert r =>
    show m.longterm.insert r = .after (m.longterm.records ++ [r])
    rw [← InMemoryLongTermStore.insert_after, ← h]
  | _ => exact h

theorem lookup_artifactPut (s : InMemoryArtifactStore A) (artifact : A) :
    (s.put artifactId artifact).lookup =
      Function.update s.lookup (artifactId artifact) (some artifact) := by
  funext id
  by_cases hid : id = artifactId artifact
  · subst hid
    rw [InMemoryArtifactStore.put, AList.lookup_insert, Function.update_self]
  · rw [InMemoryArtifactStore.put, AList.lookup_insert_ne hid, Function.update_of_ne hid]

variable (artifactId toLowercase)

/-- The facade, its index and its maps compute the memory of owners. -/
theorem facade_refines :
    Refines (MemoryFacade.exec (A := A) artifactId toLowercase)
      (Memory.exec artifactId toLowercase) Indexed memory where
  kept _ call h := indexed_exec h call
  reply m call h := by
    cases call with
    | longtermSearchByEntity tenant entity limit =>
      show MemoryReply.records _ = MemoryReply.records _
      rw [h, InMemoryLongTermStore.searchByEntity_after, memory,
        InMemoryLongTermStore.scan_recordsOf]
    | _ => rfl
  next m call _ := by
    cases call with
    | workingPut task key v =>
      exact congrArg (fun values => { m.memory with values }) (m.working.get_put task key v)
    | workingClear task =>
      exact congrArg (fun values => { m.memory with values }) (m.working.get_dropTask task)
    | threadAppend thread v =>
      exact congrArg (fun messages => { m.memory with messages }) (m.thread.read_append thread v)
    | dropThread thread =>
      exact congrArg (fun messages => { m.memory with messages }) (m.thread.read_dropThread thread)
    | longtermInsert r =>
      exact congrArg (fun records => { m.memory with records }) (m.longterm.recordsOf_insert r)
    | artifactPut artifact =>
      exact congrArg (fun artifacts => { m.memory with artifacts })
        (lookup_artifactPut m.artifacts artifact)
    | _ => rfl

/-- **Refinement.** Every run of the facade is answered as the memory of owners answers it. -/
theorem replies_eq (calls : List (MemoryCall A)) :
    (trace (MemoryFacade.exec artifactId toLowercase) (inMemory A) calls).map Step.reply =
      (trace (Memory.exec artifactId toLowercase) (.empty A) calls).map Step.reply := by
  rw [← memory_inMemory]
  exact (facade_refines artifactId toLowercase).replies (indexed_inMemory A) calls

end MemoryFacade

/-! ## Isolation -/

namespace Memory

variable {A : Type} (artifactId : A → ArtifactId) (toLowercase : String → String)
  {mine : MemoryOwner → Bool}

/-- What an owner that is not of the set writes is not seen. -/
theorem update_unseen {ι : Type} {β : ι → Type} [DecidableEq ι] {owner : ι → MemoryOwner}
    {f g : ∀ i, β i} {i₀ : ι} {x : β i₀} (h₀ : mine (owner i₀) = false)
    (h : ∀ i, mine (owner i) = true → f i = g i) (i : ι) (hi : mine (owner i) = true) :
    Function.update f i₀ x i = g i := by
  have hne : i ≠ i₀ := by
    rintro rfl
    rw [h₀] at hi
    cases hi
  rw [Function.update_of_ne hne, h i hi]

/-- What an owner of the set writes is the same afterwards. -/
theorem update_same {ι : Type} {β : ι → Type} [DecidableEq ι] {owner : ι → MemoryOwner}
    {f g : ∀ i, β i} {i₀ : ι} {x y : β i₀} (hxy : x = y)
    (h : ∀ i, mine (owner i) = true → f i = g i) (i : ι) (hi : mine (owner i) = true) :
    Function.update f i₀ x i = Function.update g i₀ y i := by
  subst hxy
  by_cases hne : i = i₀
  · subst hne
    rw [Function.update_self, Function.update_self]
  · rw [Function.update_of_ne hne, Function.update_of_ne hne, h i hi]

theorem Same.refl (mine : MemoryOwner → Bool) (m : Memory A) : Same mine m m :=
  ⟨fun _ _ => rfl, fun _ _ => rfl, fun _ _ => rfl, fun _ _ => rfl⟩

/-- A call is for its owner only. -/
theorem isolated (mine : MemoryOwner → Bool) :
    Isolation.Isolated (exec (A := A) artifactId toLowercase) (Same mine)
      fun call => mine (call.owner artifactId) where
  unseen m m' call hmine h := by
    cases call with
    | workingPut task key v => exact { h with values := update_unseen hmine h.values }
    | workingClear task => exact { h with values := update_unseen hmine h.values }
    | threadAppend thread v => exact { h with messages := update_unseen hmine h.messages }
    | dropThread thread => exact { h with messages := update_unseen hmine h.messages }
    | longtermInsert r => exact { h with records := update_unseen hmine h.records }
    | artifactPut artifact => exact { h with artifacts := update_unseen hmine h.artifacts }
    | _ => exact h
  reply m m' call hmine h := by
    cases call with
    | workingGet task key => exact congrArg MemoryReply.value (congrFun (h.values task hmine) key)
    | threadRead thread => exact congrArg MemoryReply.messages (h.messages thread hmine)
    | longtermSearch tenant query limit => simp only [exec, h.records tenant hmine]
    | longtermSearchByEntity tenant entity limit => simp only [exec, h.records tenant hmine]
    | artifactGet id => simp only [exec, h.artifacts id hmine]
    | _ => rfl
  next m m' call hmine h := by
    cases call with
    | workingPut task key v =>
      exact { h with values := update_same (by rw [h.values task hmine]) h.values }
    | workingClear task => exact { h with values := update_same rfl h.values }
    | threadAppend thread v =>
      exact { h with messages := update_same (by rw [h.messages thread hmine]) h.messages }
    | dropThread thread => exact { h with messages := update_same rfl h.messages }
    | longtermInsert r =>
      exact { h with records := update_same (by rw [h.records r.tenant hmine]) h.records }
    | artifactPut artifact => exact { h with artifacts := update_same rfl h.artifacts }
    | _ => exact h

end Memory

namespace MemoryFacade

variable {A : Type} (artifactId : A → ArtifactId) (toLowercase : String → String)

/-- **Isolation.** What any set of tasks, threads, tenants and artifact ids is answered in a run is
what it is answered when nobody else calls. -/
theorem answers_isolated (mine : MemoryOwner → Bool) (calls : List (MemoryCall A)) :
    answers (MemoryFacade.exec artifactId toLowercase) (fun call => mine (call.owner artifactId))
        (inMemory A) calls =
      (trace (MemoryFacade.exec artifactId toLowercase) (inMemory A)
        (calls.filter fun call => mine (call.owner artifactId))).map Step.reply := by
  rw [(facade_refines artifactId toLowercase).answers (indexed_inMemory A), replies_eq,
    memory_inMemory]
  exact ((Memory.isolated artifactId toLowercase mine).answers_filter (.refl mine _) calls).1

end MemoryFacade

end Aaf
