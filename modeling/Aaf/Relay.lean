import Mathlib.Data.List.Induction
import Aaf.Discovery
import Aaf.Registry

/-!
# Agent cards

An `AgentCard` (`aaf-registry`) is what a cell makes public of a capability, for others to import
under a scope of their own. A card comes back as it was from the contract it is imported as, but a
contract does not come back from its card: its costs, schemas, compensation and the rest stay
behind.

Cells pass cards on. However many cells a capability goes through and in whatever order each lists
its own, the last one has what it would have had from the first directly, under its own scope
(`relays_collapse`). Nothing that writes gets through: a card has no compensation, and the registry
refuses a writer without one.
-/

namespace Aaf

/-- External A2A agent card. -/
structure AgentCard where
  id : String
  name : String
  description : String
  version : String
  endpointKind : EndpointKind
  endpointAddress : String
  sideEffect : SideEffect
  domains : List String
  deriving DecidableEq, Repr

namespace AgentCard

/-- `AgentCard::from_contract`. -/
def fromContract (c : CapabilityContract) : AgentCard where
  id := c.id.raw
  name := c.name
  description := c.description
  version := c.version
  endpointKind := c.endpoint.kind
  endpointAddress := c.endpoint.address
  sideEffect := c.sideEffect
  domains := c.domains

/-- `AgentCard::into_contract`. The default cost has no currency. -/
def intoContract (card : AgentCard) (requiredScope : String) : CapabilityContract where
  id := ⟨card.id⟩
  name := card.name
  description := card.description
  version := card.version
  providerAgent := "a2a-import"
  endpoint := ⟨card.endpointKind, card.endpointAddress, none⟩
  inputSchema := .obj []
  outputSchema := .obj []
  sideEffect := card.sideEffect
  idempotent := false
  reversible := false
  deterministic := false
  compensation := none
  sla := ⟨0, 0, 0⟩
  cost := ⟨0, ""⟩
  requiredScope := requiredScope
  dataClassification := .internal
  degradation := []
  dependsOn := []
  conflictsWith := []
  tags := ["a2a", "imported"]
  domains := card.domains
  reads := []
  writes := []
  emits := []
  entityScope := none
  requiredAttestationLevel := none
  reputation := .finite (1 / 2)
  learnedRules := []

/-- A card comes back from the contract that it is imported as. -/
theorem fromContract_intoContract (card : AgentCard) (scope : String) :
    fromContract (card.intoContract scope) = card := rfl

/-- What a cell makes of a contract of another. -/
def imported (scope : String) (c : CapabilityContract) : CapabilityContract :=
  (fromContract c).intoContract scope

theorem imported_imported (scope scope' : String) (c : CapabilityContract) :
    imported scope' (imported scope c) = imported scope' c := rfl

/-- A valid contract can be imported if it does not write. -/
theorem validate_imported {c : CapabilityContract} (h : c.validate = .ok ()) (scope : String) :
    (imported scope c).validate = if c.sideEffect.requiresCompensation then
      .error (.missingCompensation c.id.raw c.sideEffect) else .ok () := by
  rw [CapabilityContract.validate] at h ⊢
  by_cases hname : Text.isBlank c.name = true
  · rw [if_pos hname] at h
    cases h
  by_cases hversion : Text.isBlank c.version = true
  · rw [if_neg hname, if_pos hversion] at h
    cases h
  change (if Text.isBlank c.name = true then _ else if Text.isBlank c.version = true then _
    else if c.sideEffect.requiresCompensation = true ∧ none = none then _ else _) = _
  rw [if_neg hname, if_neg hversion]
  by_cases hwrites : c.sideEffect.requiresCompensation = true
  · rw [if_pos ⟨hwrites, rfl⟩, if_pos hwrites]
    rfl
  · rw [if_neg fun hand => hwrites hand.1, if_neg hwrites]

end AgentCard

namespace Registry

/-- Only valid contracts are stored. -/
theorem Reachable.valid {r : Registry} (h : Reachable r) :
    ∀ {id : CapabilityId} {cap : CapabilityContract}, r.lookup id = some cap →
      cap.validate = .ok () := by
  induction h with
  | inMemory =>
    intro id cap h
    cases h
  | @register r new h ih =>
    intro id cap hlookup
    rw [Registry.register] at hlookup
    rcases hvalid : new.validate with e | u
    · rw [hvalid] at hlookup
      exact ih hlookup
    · rw [hvalid] at hlookup
      by_cases hid : id = new.id
      · rw [hid, AList.lookup_insert] at hlookup
        rw [← Option.some.inj hlookup]
        exact hvalid
      · rw [AList.lookup_insert_ne hid] at hlookup
        exact ih hlookup
  | @deregister r gone h ih =>
    intro id cap hlookup
    rw [Registry.deregister] at hlookup
    by_cases hid : id = gone
    · rw [hid, AList.lookup_erase] at hlookup
      cases hlookup
    · rw [AList.lookup_erase_ne hid] at hlookup
      exact ih hlookup

/-! ## Publishing and importing -/

/-- The cards a cell makes public. -/
def publish (r : Registry) (order : ListOrder) : List AgentCard :=
  (r.list order).map AgentCard.fromContract

/-- A cell registers the cards of another; what is refused is skipped. -/
def importCards (r : Registry) (scope : String) (cards : List AgentCard) : Registry :=
  cards.foldl (fun r card => (r.register (card.intoContract scope)).2) r

/-- What a cell has of a capability of another: nothing that writes. -/
def sharedOf (scope : String) (c : CapabilityContract) : Option CapabilityContract :=
  if c.sideEffect.requiresCompensation then none else some (AgentCard.imported scope c)

/-- A card that comes alone. -/
theorem register_imported {r : Registry} {c : CapabilityContract} (h : c.validate = .ok ())
    (scope : String) :
    (r.register (AgentCard.imported scope c)).2 =
      (sharedOf scope c).elim r fun shared => r.insert c.id shared := by
  rw [register, AgentCard.validate_imported h, sharedOf]
  by_cases hwrites : c.sideEffect.requiresCompensation = true
  · rw [if_pos hwrites, if_pos hwrites]
    rfl
  · rw [if_neg hwrites, if_neg hwrites]
    rfl

theorem Reachable.importCards {r : Registry} (h : Reachable r) (scope : String)
    (cards : List AgentCard) : Reachable (r.importCards scope cards) := by
  induction cards generalizing r with
  | nil => exact h
  | cons card cards ih => exact ih (h.register _)

/-- What contracts with ids of their own leave behind when they are imported. -/
theorem lookup_importCards {scope : String} {caps : List CapabilityContract}
    (hvalid : ∀ c ∈ caps, c.validate = .ok ()) (hids : (caps.map CapabilityContract.id).Nodup)
    (r : Registry) (id : CapabilityId) :
    (r.importCards scope (caps.map AgentCard.fromContract)).lookup id =
      (((caps.find? fun c => decide (c.id = id)).bind (sharedOf scope)).or (r.lookup id)) := by
  induction caps generalizing r with
  | nil => rfl
  | cons c caps ih =>
    rw [List.map_cons, List.nodup_cons] at hids
    obtain ⟨hnew, hids⟩ := hids
    have hrest := ih (fun d hd => hvalid d (List.mem_cons_of_mem _ hd)) hids
      (r.register (AgentCard.imported scope c)).2
    rw [register_imported (hvalid c List.mem_cons_self)] at hrest
    change ((r.register (AgentCard.imported scope c)).2.importCards scope _).lookup id = _
    rw [register_imported (hvalid c List.mem_cons_self), hrest]
    by_cases hid : c.id = id
    · -- the rest does not come back to this id
      have hnone : (caps.find? fun d => decide (d.id = id)) = none := by
        rw [List.find?_eq_none]
        intro d hd hsame
        refine hnew (List.mem_map.mpr ⟨d, hd, ?_⟩)
        rw [of_decide_eq_true hsame, hid]
      have hfirst : ((c :: caps).find? fun d => decide (d.id = id)) = some c :=
        List.find?_cons_of_pos (decide_eq_true hid)
      rw [hnone, hfirst, Option.bind_none, Option.none_or, Option.bind_some]
      rcases sharedOf scope c with _ | shared
      · rfl
      · rw [hid]
        exact AList.lookup_insert _
    · have hskip : ((c :: caps).find? fun d => decide (d.id = id)) =
          caps.find? fun d => decide (d.id = id) := List.find?_cons_of_neg (by simpa using hid)
      rw [hskip]
      refine congrArg _ ?_
      rcases sharedOf scope c with _ | shared
      · rfl
      · exact AList.lookup_insert_ne (Ne.symm hid)

/-- **One hop.** Imports take the place of what the cell had under the same ids. -/
theorem Reachable.lookup_import {r : Registry} (h : Reachable r) (own : Registry)
    (order : ListOrder) (scope : String) (id : CapabilityId) :
    (own.importCards scope (r.publish order)).lookup id =
      ((r.lookup id).bind (sharedOf scope)).or (own.lookup id) := by
  have hvalid : ∀ c ∈ r.list order, c.validate = .ok () := by
    intro c hc
    obtain ⟨id', hlookup⟩ := (mem_list order).mp hc
    exact h.valid hlookup
  rw [publish, lookup_importCards hvalid (h.nodup_ids order)]
  have hfind : ((r.list order).find? fun c => decide (c.id = id)) = r.lookup id := by
    rcases hlookup : r.lookup id with _ | c
    · rw [List.find?_eq_none]
      intro c hc hid
      have hstored := h.lookup_of_mem_list hc
      rw [of_decide_eq_true hid, hlookup] at hstored
      cases hstored
    · rcases hfound : (r.list order).find? fun c => decide (c.id = id) with _ | d
      · have hmem : c ∈ r.list order := (mem_list order).mpr ⟨id, hlookup⟩
        have hid := List.find?_eq_none.mp hfound c hmem
        exact absurd (decide_eq_true (h.lookup_id hlookup)) hid
      · have hd := h.lookup_of_mem_list (List.mem_of_find?_eq_some hfound)
        have hid : d.id = id := by simpa using List.find?_some hfound
        rw [hid, hlookup] at hd
        exact hfound.trans hd.symm
  rw [hfind]

end Registry

/-! ## Cells that pass cards on -/

/-- A cell on the way: its own registry, the order in which the cards come to it, and the scope it
imports them under. -/
structure Cell where
  own : Registry
  reachable : own.Reachable
  order : ListOrder
  scope : String

namespace Cell

/-- The registry of the last of some cells, once the capabilities of `r` have come through. -/
def through (r : Registry) (cells : List Cell) : Registry :=
  cells.foldl (fun r cell => cell.own.importCards cell.scope (r.publish cell.order)) r

theorem through_concat (r : Registry) (cells : List Cell) (cell : Cell) :
    through r (cells ++ [cell]) =
      cell.own.importCards cell.scope ((through r cells).publish cell.order) :=
  List.foldl_concat ..

theorem reachable_through {r : Registry} (h : r.Reachable) (cells : List Cell) :
    (through r cells).Reachable := by
  induction cells using List.reverseRecOn with
  | nil => exact h
  | append_singleton cells cell _ =>
    rw [through_concat]
    exact cell.reachable.importCards cell.scope _

/-- A hop behind another. -/
theorem sharedOf_of_sharedOf {scope scope' : String} {c shared : CapabilityContract}
    (h : Registry.sharedOf scope c = some shared) :
    Registry.sharedOf scope' shared = Registry.sharedOf scope' c := by
  rw [Registry.sharedOf] at h
  split_ifs at h with hwrites
  rw [← Option.some.inj h, Registry.sharedOf, Registry.sharedOf]
  rfl

/-- Only the card of a contract is shared. -/
theorem sharedOf_congr {scope : String} {c c' : CapabilityContract}
    (h : AgentCard.fromContract c = AgentCard.fromContract c') :
    Registry.sharedOf scope c = Registry.sharedOf scope c' := by
  have heffect : c.sideEffect = c'.sideEffect := congrArg AgentCard.sideEffect h
  rw [Registry.sharedOf, Registry.sharedOf, heffect, AgentCard.imported, AgentCard.imported, h]

/-- **Hops collapse.** A capability that no cell on the way has of its own arrives at the last one
as it would have come from the first directly, if it does not write; and what arrives depends on
the cards of the first only. -/
theorem relays_collapse {r : Registry} (hr : r.Reachable) (cells : List Cell) (last : Cell)
    (id : CapabilityId) :
    ((∀ cell ∈ cells ++ [last], cell.own.lookup id = none) →
      (through r (cells ++ [last])).lookup id =
        (r.lookup id).bind (Registry.sharedOf last.scope)) ∧
    ∀ r' : Registry, r'.Reachable →
      (r'.lookup id).map AgentCard.fromContract = (r.lookup id).map AgentCard.fromContract →
        (through r' (cells ++ [last])).lookup id = (through r (cells ++ [last])).lookup id := by
  have hhop : ∀ {r : Registry}, r.Reachable → ∀ (cells : List Cell) (cell : Cell),
      (through r (cells ++ [cell])).lookup id =
        (((through r cells).lookup id).bind (Registry.sharedOf cell.scope)).or
          (cell.own.lookup id) := by
    intro r hr cells cell
    rw [through_concat]
    exact (reachable_through hr cells).lookup_import cell.own cell.order cell.scope id
  constructor
  · induction cells using List.reverseRecOn generalizing last with
    | nil =>
      intro hfree
      rw [hhop hr, hfree last (List.mem_singleton_self _), Option.or_none]
      rfl
    | append_singleton cells cell ih =>
      intro hfree
      have hbefore := ih cell fun c hc => hfree c (List.mem_append_left _ hc)
      have hlast := hfree last (List.mem_append_right _ (List.mem_singleton_self _))
      rw [hhop hr, hbefore, hlast, Option.or_none, Option.bind_assoc]
      refine Option.bind_congr fun c _ => ?_
      rcases hshared : Registry.sharedOf cell.scope c with _ | shared
      · rw [Registry.sharedOf] at hshared ⊢
        split_ifs at hshared with hwrites
        rw [if_pos hwrites]
        rfl
      · exact sharedOf_of_sharedOf hshared
  · intro r' hr' hcards
    have hfirst : ∀ scope, (r'.lookup id).bind (Registry.sharedOf scope) =
        (r.lookup id).bind (Registry.sharedOf scope) := by
      intro scope
      rcases hc : r.lookup id with _ | c
      · rw [hc] at hcards
        rw [Option.map_eq_none_iff.mp hcards]
      · rw [hc] at hcards
        obtain ⟨c', hc', hcard⟩ := Option.map_eq_some_iff.mp hcards
        rw [hc']
        exact sharedOf_congr hcard
    induction cells using List.reverseRecOn generalizing last with
    | nil =>
      rw [hhop hr, hhop hr']
      exact congrArg (Option.or · _) (hfirst last.scope)
    | append_singleton cells cell ih => rw [hhop hr, hhop hr', ih cell]

/-- A cell with nothing of its own. -/
def desk : Cell := ⟨.inMemory, .inMemory, ⟨fun l => l, List.Perm.refl⟩, "desk:read"⟩

/-- A registry of one capability. -/
def quotes : Registry := (Registry.inMemory.register (.plain ⟨"cap-quote"⟩ "quote")).2

theorem relays_collapse_quotes :
    ((∀ cell ∈ [desk] ++ [desk], cell.own.lookup ⟨"cap-quote"⟩ = none) →
      (through quotes ([desk] ++ [desk])).lookup ⟨"cap-quote"⟩ =
        (quotes.lookup ⟨"cap-quote"⟩).bind (Registry.sharedOf desk.scope)) ∧
    ∀ r' : Registry, r'.Reachable →
      (r'.lookup ⟨"cap-quote"⟩).map AgentCard.fromContract =
          (quotes.lookup ⟨"cap-quote"⟩).map AgentCard.fromContract →
        (through r' ([desk] ++ [desk])).lookup ⟨"cap-quote"⟩ =
          (through quotes ([desk] ++ [desk])).lookup ⟨"cap-quote"⟩ :=
  relays_collapse (Registry.Reachable.inMemory.register _) [desk] desk ⟨"cap-quote"⟩

end Cell

end Aaf
