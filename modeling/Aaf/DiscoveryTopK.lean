import Aaf.DiscoveryOrder

/-!
# Discovery as an exact top-k

`Registry::discover` filters, scores, sorts and cuts. `discover_topK`: what it returns are
as many eligible capabilities as the limit allows, each once, from the highest score down,
and no eligible capability that is left out has a higher score than one that is returned.
A score is the fraction of the query's terms that occur in the capability's text.
-/

namespace Aaf

/-- The fraction of the terms of a query that occur in a text, in lower case. -/
def termFraction (toLowercase : String → String) (query text : String) : ℚ :=
  let terms := Text.splitWhitespace (toLowercase query)
  ((terms.filter fun term => Text.contains (toLowercase text) term).length : ℚ) / terms.length

/-- The score is that fraction; without a term it is zero. -/
theorem lexicalScore_eq (toLowercase : String → String) (query text : String) :
    lexicalScore toLowercase query text = termFraction toLowercase query text := by
  rw [lexicalScore, termFraction]
  split
  · next hnil =>
    rw [hnil]
    simp
  · rw [List.countP_eq_length_filter]

theorem termFraction_le_one (toLowercase : String → String) (query text : String) :
    termFraction toLowercase query text ≤ 1 := by
  rw [termFraction]
  refine div_le_one_of_le₀ ?_ (Nat.cast_nonneg _)
  exact Nat.cast_le.mpr (List.length_filter_le _ _)

namespace Registry

variable {r : Registry} {order : ListOrder} {toLowercase : String → String} {q : DiscoveryQuery}

/-- The hits are the best of the eligible capabilities in the store. -/
structure TopHits (toLowercase : String → String) (r : Registry) (q : DiscoveryQuery)
    (hits : List DiscoveryResult) : Prop where
  length_eq : hits.length =
    min q.limit ((r.list asStored).countP fun cap => decide (q.Matches toLowercase cap))
  distinct : (hits.map fun hit => hit.capability.id).Nodup
  eligible : ∀ hit ∈ hits, r.lookup hit.capability.id = some hit.capability ∧
    q.Matches toLowercase hit.capability
  sorted : hits.Pairwise fun hit hit' => hit'.score ≤ hit.score
  best : ∀ hit ∈ hits, ∀ cap, r.lookup cap.id = some cap → q.Matches toLowercase cap →
    cap ∉ hits.map DiscoveryResult.capability → q.scoreOf toLowercase cap ≤ hit.score
  score_eq : ∀ hit ∈ hits,
    hit.score = termFraction toLowercase q.query hit.capability.haystack ∧
      0 ≤ hit.score ∧ hit.score ≤ 1

/-- The store lists what it holds. -/
theorem mem_list_of_lookup {cap : CapabilityContract} (h : r.lookup cap.id = some cap) :
    cap ∈ r.list order := by
  rw [list, List.mem_filterMap]
  exact ⟨cap.id, (order.perm _).mem_iff.mpr (mem_keys_of_lookup h), h⟩

/-- **Discovery is an exact top-k**, in whatever order the store lists its entries. -/
theorem discover_topK (hr : r.Reachable) (order : ListOrder) (toLowercase : String → String)
    (q : DiscoveryQuery) : TopHits toLowercase r q (r.discover toLowercase order q) := by
  have htop : Ranking.IsTop DiscoveryResult.score q.limit (q.matched toLowercase (r.list order))
      (r.discover toLowercase order q) := Ranking.isTop_take_rank _ _
  obtain ⟨rest, hperm, hbest⟩ := htop.best
  refine ⟨?_, hr.nodup_discover, fun hit hhit => ?_, htop.sorted, ?_, fun hit hhit => ?_⟩
  · rw [htop.length_eq, (matched_perm r order).length_eq, results,
      List.countP_eq_length_filter, ← matched_map_capability, List.length_map]
  · obtain ⟨hlisted, hmatch, -⟩ := mem_discover hhit
    exact ⟨hr.lookup_of_mem_list hlisted, hmatch⟩
  · intro hit hhit cap hcap hmatch hout
    -- an eligible capability is scored, so it is among the rest when it is not returned
    have hscored : (⟨cap, q.scoreOf toLowercase cap⟩ : DiscoveryResult) ∈
        q.matched toLowercase (r.list order) :=
      mem_matched.mpr ⟨mem_list_of_lookup hcap, hmatch, rfl⟩
    rcases List.mem_append.mp (hperm.mem_iff.mpr hscored) with hin | hin
    · exact absurd (List.mem_map_of_mem hin) hout
    · exact hbest hit hhit ⟨cap, q.scoreOf toLowercase cap⟩ hin
  · obtain ⟨-, hmatch, hscore⟩ := mem_discover hhit
    have hfraction : hit.score = termFraction toLowercase q.query hit.capability.haystack := by
      rw [hscore, DiscoveryQuery.scoreOf, lexicalScore_eq]
    refine ⟨hfraction, ?_, ?_⟩
    · rw [hscore]
      exact hmatch.2.le
    · rw [hfraction]
      exact termFraction_le_one _ _ _

/-- The two capabilities on the shelves answer the question about the stock. -/
theorem discover_topK_shelves : shelves.Reachable ∧
    TopHits warehouseMint.toLowercase shelves (.new "check stock")
      (shelves.discover warehouseMint.toLowercase asStored (.new "check stock")) :=
  ⟨shelves_reachable, discover_topK shelves_reachable asStored _ _⟩

end Registry

end Aaf
