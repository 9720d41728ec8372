import Mathlib.Data.Rat.Lemmas
import Aaf.Ranking
import Aaf.Registry

/-!
# Capability discovery

`Registry::discover` and `Registry::discover_by_entity` (`aaf-registry`): a scan of the
store in its own order, ranked by a lexical score, or left as it is.

A score is the fraction of the query's terms that occur in the capability's text. It is
an exact rational here: all scores of one query have the same denominator. Unicode
lower-casing is a function on strings, given from outside.
-/

namespace Aaf

/-- Discovery query. -/
structure DiscoveryQuery where
  query : String
  domain : Option String
  limit : ℕ
  deriving DecidableEq, Repr

/-- `DiscoveryQuery::new`. -/
def DiscoveryQuery.new (query : String) : DiscoveryQuery := ⟨query, none, 5⟩

/-- Ranked discovery result. -/
structure DiscoveryResult where
  capability : CapabilityContract
  score : ℚ

/-- Which declared entity role to match against. -/
inductive EntityQueryKind : Type where
  | reads : EntityQueryKind
  | writes : EntityQueryKind
  | emits : EntityQueryKind
  deriving DecidableEq, Repr

/-- The text a capability is found by. -/
def CapabilityContract.haystack (cap : CapabilityContract) : String :=
  cap.name ++ " " ++ cap.description ++ " " ++ String.intercalate " " cap.tags

section Discover

variable (toLowercase : String → String)

/-- `lexical_score`. -/
def lexicalScore (q haystack : String) : ℚ :=
  let qTerms := Text.splitWhitespace (toLowercase q)
  if qTerms = [] then 0
  else
    (qTerms.countP fun term => Text.contains (toLowercase haystack) term : ℚ) / qTerms.length

/-- The score of a capability for a query. -/
def DiscoveryQuery.scoreOf (q : DiscoveryQuery) (cap : CapabilityContract) : ℚ :=
  lexicalScore toLowercase q.query cap.haystack

/-- The capability serves the domain the query asks for, if it asks for one. -/
def DiscoveryQuery.InDomain (q : DiscoveryQuery) (cap : CapabilityContract) : Prop :=
  ∀ d ∈ q.domain, d ∈ cap.domains

instance (q : DiscoveryQuery) (cap : CapabilityContract) : Decidable (q.InDomain cap) :=
  inferInstanceAs (Decidable (∀ d ∈ q.domain, _))

/-- The capability is a result of the query. -/
def DiscoveryQuery.Matches (q : DiscoveryQuery) (cap : CapabilityContract) : Prop :=
  q.InDomain cap ∧ 0 < q.scoreOf toLowercase cap

instance (q : DiscoveryQuery) (cap : CapabilityContract) :
    Decidable (q.Matches toLowercase cap) :=
  inferInstanceAs (Decidable (_ ∧ _))

/-- The results before they are ranked. -/
def DiscoveryQuery.matched (q : DiscoveryQuery) (caps : List CapabilityContract) :
    List DiscoveryResult :=
  caps.filterMap fun cap =>
    if q.Matches toLowercase cap then some ⟨cap, q.scoreOf toLowercase cap⟩ else none

/-- `Registry::discover`: sorted by score with a stable sort, then cut. -/
def Registry.discover (r : Registry) (order : ListOrder) (q : DiscoveryQuery) :
    List DiscoveryResult :=
  (Ranking.rank DiscoveryResult.score (q.matched toLowercase (r.list order))).take q.limit

end Discover

/-- The capability declares the entity under the role. -/
def EntityQueryKind.Declares (kind : EntityQueryKind) (entity : EntityRefLite)
    (cap : CapabilityContract) : Prop :=
  match kind with
  | .reads => ∃ ref ∈ cap.reads, ref.entityId = entity.entityId
  | .writes => ∃ ref ∈ cap.writes, ref.entityId = entity.entityId
  | .emits => ∃ event ∈ cap.emits, event.id = entity.entityId

instance (kind : EntityQueryKind) (entity : EntityRefLite) (cap : CapabilityContract) :
    Decidable (kind.Declares entity cap) :=
  match kind with
  | .reads => inferInstanceAs (Decidable (∃ ref ∈ cap.reads, _))
  | .writes => inferInstanceAs (Decidable (∃ ref ∈ cap.writes, _))
  | .emits => inferInstanceAs (Decidable (∃ event ∈ cap.emits, _))

/-- `Registry::discover_by_entity`: in the order of the store. -/
def Registry.discoverByEntity (r : Registry) (order : ListOrder) (entity : EntityRefLite)
    (kind : EntityQueryKind) : List CapabilityContract :=
  (r.list order).filter fun cap => decide (kind.Declares entity cap)

/-! ## What is found -/

namespace Registry

variable {r : Registry} {order : ListOrder} {toLowercase : String → String} {q : DiscoveryQuery}

/-- The ids are listed in the order of the store. -/
theorem Reachable.list_map_id (hr : r.Reachable) (order : ListOrder) :
    (r.list order).map CapabilityContract.id = order.order r.keys := by
  have hkeys : ∀ id ∈ order.order r.keys, ∃ cap, r.lookup id = some cap := by
    intro id hid
    rw [(order.perm _).mem_iff, ← AList.mem_keys, ← AList.lookup_isSome] at hid
    exact Option.isSome_iff_exists.mp hid
  rw [list]
  generalize order.order r.keys = ids at hkeys
  induction ids with
  | nil => rfl
  | cons id ids ih =>
    obtain ⟨cap, hcap⟩ := hkeys id List.mem_cons_self
    rw [List.filterMap_cons, hcap, List.map_cons, hr.lookup_id hcap,
      ih fun id' hid' => hkeys id' (List.mem_cons_of_mem _ hid')]

theorem Reachable.nodup_ids (hr : r.Reachable) (order : ListOrder) :
    ((r.list order).map CapabilityContract.id).Nodup := by
  rw [hr.list_map_id]
  exact (order.perm _).nodup_iff.mpr r.keys_nodup

/-- Two orders list the same contracts. -/
theorem list_perm (r : Registry) (order order' : ListOrder) :
    (r.list order).Perm (r.list order') :=
  ((order.perm _).trans (order'.perm _).symm).filterMap _

theorem mem_matched {caps : List CapabilityContract} {hit : DiscoveryResult} :
    hit ∈ q.matched toLowercase caps ↔ hit.capability ∈ caps ∧
      q.Matches toLowercase hit.capability ∧ hit.score = q.scoreOf toLowercase hit.capability := by
  rw [DiscoveryQuery.matched, List.mem_filterMap]
  refine ⟨?_, ?_⟩
  · rintro ⟨cap, hcap, hhit⟩
    by_cases hmatch : q.Matches toLowercase cap
    · rw [if_pos hmatch] at hhit
      cases hhit
      exact ⟨hcap, hmatch, rfl⟩
    · rw [if_neg hmatch] at hhit
      cases hhit
  · rintro ⟨hcap, hmatch, hscore⟩
    refine ⟨hit.capability, hcap, ?_⟩
    rw [if_pos hmatch, ← hscore]

/-- The matched capabilities keep their order. -/
theorem matched_map_capability (caps : List CapabilityContract) :
    (q.matched toLowercase caps).map DiscoveryResult.capability =
      caps.filter fun cap => decide (q.Matches toLowercase cap) := by
  induction caps with
  | nil => rfl
  | cons cap caps ih =>
    rw [DiscoveryQuery.matched] at ih ⊢
    by_cases hmatch : q.Matches toLowercase cap
    · rw [List.filterMap_cons, if_pos hmatch, List.map_cons, ih,
        List.filter_cons_of_pos (by simpa using hmatch)]
    · rw [List.filterMap_cons, if_neg hmatch, ih, List.filter_cons_of_neg (by simpa using hmatch)]

theorem mem_discover {hit : DiscoveryResult} (h : hit ∈ r.discover toLowercase order q) :
    hit.capability ∈ r.list order ∧ q.Matches toLowercase hit.capability ∧
      hit.score = q.scoreOf toLowercase hit.capability :=
  mem_matched.mp (Ranking.mem_rank.mp (List.mem_of_mem_take h))

/-- The matched capabilities have distinct ids. -/
theorem Reachable.nodup_matched (hr : r.Reachable) (order : ListOrder)
    (toLowercase : String → String) (q : DiscoveryQuery) :
    ((q.matched toLowercase (r.list order)).map fun hit => hit.capability.id).Nodup := by
  have hids : ((q.matched toLowercase (r.list order)).map fun hit => hit.capability.id) =
      ((r.list order).filter fun cap => decide (q.Matches toLowercase cap)).map
        CapabilityContract.id := by
    rw [← matched_map_capability, List.map_map]
    rfl
  rw [hids]
  exact (hr.nodup_ids order).sublist (List.filter_sublist.map _)

/-- The hits have distinct ids. -/
theorem Reachable.nodup_discover (hr : r.Reachable) :
    ((r.discover toLowercase order q).map fun hit => hit.capability.id).Nodup := by
  have hranked : ((Ranking.rank DiscoveryResult.score
      (q.matched toLowercase (r.list order))).map fun hit => hit.capability.id).Nodup :=
    ((Ranking.perm_rank _).map _).nodup_iff.mpr (hr.nodup_matched order toLowercase q)
  exact hranked.sublist ((List.take_sublist _ _).map _)

end Registry

end Aaf
