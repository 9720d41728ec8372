import Mathlib.Data.Finset.Card
import Mathlib.Data.List.Perm.Basic
import Aaf.Topo

/-!
# Depth-first order

Nodes of any type, each with a key and a list of nodes it needs first. `visit` marks a
node by its key, visits what it needs, and then puts the node at the end of the order.
A marked node is not visited again, so a cycle is cut where it closes. The recursion is
on fuel; fuel above the number of keys that are not marked yet is enough, and all
statements are about enough fuel.

* `visit_spec`: a visit marks exactly the nodes it puts in the order, each once, and
  ends with the visited node.
* `respects_visitAll`: without a cycle, every node stands after all it needs.
-/

namespace Dfs

universe u v

/-- The marked keys, and the nodes in the order of their completion. -/
structure State (α : Type u) (β : Type v) where
  visited : List α
  order : List β

variable {α : Type u} {β : Type v} [DecidableEq α] (key : β → α) (next : β → List β)

/-- Visit a node, with at most `fuel` nested visits. -/
def visit : ℕ → β → State α β → State α β
  | 0, _, st => st
  | fuel + 1, b, st =>
    if key b ∈ st.visited then st
    else
      let st' := (next b).foldl (fun st d => visit fuel d st) ⟨key b :: st.visited, st.order⟩
      ⟨st'.visited, st'.order ++ [b]⟩

/-- Visit nodes one after the other. -/
def visitAll (fuel : ℕ) (roots : List β) (st : State α β) : State α β :=
  roots.foldl (fun st b => visit key next fuel b st) st

variable {key next}

theorem visit_of_visited (fuel : ℕ) {b : β} {st : State α β} (h : key b ∈ st.visited) :
    visit key next fuel b st = st := by
  cases fuel with
  | zero => rfl
  | succ fuel => rw [visit, if_pos h]

theorem visit_of_not_visited (fuel : ℕ) {b : β} {st : State α β} (h : key b ∉ st.visited) :
    visit key next (fuel + 1) b st =
      ⟨(visitAll key next fuel (next b) ⟨key b :: st.visited, st.order⟩).visited,
        (visitAll key next fuel (next b) ⟨key b :: st.visited, st.order⟩).order ++ [b]⟩ := by
  rw [visit, if_neg h]
  rfl

@[simp]
theorem visitAll_nil (fuel : ℕ) (st : State α β) : visitAll key next fuel [] st = st := rfl

theorem visitAll_cons (fuel : ℕ) (b : β) (roots : List β) (st : State α β) :
    visitAll key next fuel (b :: roots) st =
      visitAll key next fuel roots (visit key next fuel b st) := rfl

/-- Visiting marked nodes does nothing. -/
theorem visitAll_of_visited (fuel : ℕ) {roots : List β} {st : State α β}
    (h : ∀ b ∈ roots, key b ∈ st.visited) : visitAll key next fuel roots st = st := by
  induction roots with
  | nil => rfl
  | cons b roots ih =>
    rw [visitAll_cons, visit_of_visited fuel (h b List.mem_cons_self)]
    exact ih fun b' hb' => h b' (List.mem_cons_of_mem _ hb')

/-! ## What a visit adds -/

/-- From `st` to `st'` the nodes `new` were put in the order, and marked. -/
structure Extends (key : β → α) (nodes : List β) (st st' : State α β) (new : List β) : Prop where
  order : st'.order = st.order ++ new
  visited : ∀ a, a ∈ st'.visited ↔ a ∈ st.visited ∨ a ∈ new.map key
  nodup : (new.map key).Nodup
  fresh : ∀ b ∈ new, key b ∉ st.visited
  mem : ∀ b ∈ new, b ∈ nodes

omit [DecidableEq α] in
theorem Extends.refl (key : β → α) (nodes : List β) (st : State α β) :
    Extends key nodes st st [] := by
  refine ⟨(List.append_nil _).symm, fun a => ?_, List.nodup_nil, ?_, ?_⟩
  · simp
  · intro b hb
    cases hb
  · intro b hb
    cases hb

omit [DecidableEq α] in
theorem Extends.trans {nodes : List β} {st st' st'' : State α β} {new new' : List β}
    (h : Extends key nodes st st' new) (h' : Extends key nodes st' st'' new') :
    Extends key nodes st st'' (new ++ new') := by
  refine ⟨?_, fun a => ?_, ?_, fun b hb => ?_, fun b hb => ?_⟩
  · rw [h'.order, h.order, List.append_assoc]
  · rw [h'.visited, h.visited, List.map_append, List.mem_append, or_assoc]
  · rw [List.map_append]
    refine h.nodup.append h'.nodup fun a ha ha' => ?_
    obtain ⟨b, hb, rfl⟩ := List.mem_map.mp ha'
    exact h'.fresh b hb ((h.visited _).mpr (Or.inr ha))
  · rcases List.mem_append.mp hb with hb | hb
    · exact h.fresh b hb
    · exact fun hmem => h'.fresh b hb ((h.visited _).mpr (Or.inl hmem))
  · rcases List.mem_append.mp hb with hb | hb
    · exact h.mem b hb
    · exact h'.mem b hb

omit [DecidableEq α] in
/-- A visit is complete when the node is put after what it needs. -/
theorem Extends.complete {nodes : List β} {st st' : State α β} {new : List β} {b : β}
    (h : Extends key nodes ⟨key b :: st.visited, st.order⟩ st' new) (hb : b ∈ nodes)
    (hmark : key b ∉ st.visited) :
    Extends key nodes st ⟨st'.visited, st'.order ++ [b]⟩ (new ++ [b]) := by
  refine ⟨?_, fun a => ?_, ?_, fun b' hb' => ?_, fun b' hb' => ?_⟩
  · rw [h.order, List.append_assoc]
  · rw [h.visited]
    simp only [List.mem_cons, List.map_append, List.mem_append, List.map_cons, List.map_nil,
      List.not_mem_nil, or_false]
    tauto
  · rw [List.map_append]
    refine h.nodup.append (List.nodup_singleton _) fun a ha ha' => ?_
    obtain ⟨b', hb', rfl⟩ := List.mem_map.mp ha
    exact h.fresh b' hb' (List.mem_singleton.mp ha' ▸ List.mem_cons_self)
  · rcases List.mem_append.mp hb' with hb' | hb'
    · exact fun hold => h.fresh b' hb' (List.mem_cons_of_mem _ hold)
    · rw [List.mem_singleton.mp hb']
      exact hmark
  · rcases List.mem_append.mp hb' with hb' | hb'
    · exact h.mem b' hb'
    · rw [List.mem_singleton.mp hb']
      exact hb

/-- The number of keys that are not marked yet. -/
def unvisited (key : β → α) (nodes : List β) (st : State α β) : ℕ :=
  ((nodes.map key).toFinset \ st.visited.toFinset).card

theorem Extends.unvisited_le {nodes : List β} {st st' : State α β} {new : List β}
    (h : Extends key nodes st st' new) : unvisited key nodes st' ≤ unvisited key nodes st := by
  refine Finset.card_le_card (Finset.sdiff_subset_sdiff (Finset.Subset.refl _) fun a ha => ?_)
  rw [List.mem_toFinset] at ha ⊢
  exact (h.visited a).mpr (Or.inl ha)

theorem unvisited_mark_lt {nodes : List β} {st : State α β} {b : β} (hb : b ∈ nodes)
    (h : key b ∉ st.visited) :
    unvisited key nodes ⟨key b :: st.visited, st.order⟩ < unvisited key nodes st := by
  refine Finset.card_lt_card ⟨?_, fun hsubset => ?_⟩
  · refine Finset.sdiff_subset_sdiff (Finset.Subset.refl _) fun a ha => ?_
    rw [List.mem_toFinset] at ha ⊢
    exact List.mem_cons_of_mem _ ha
  · have hmem : key b ∈ (nodes.map key).toFinset \ st.visited.toFinset := by
      rw [Finset.mem_sdiff, List.mem_toFinset, List.mem_toFinset]
      exact ⟨List.mem_map_of_mem hb, h⟩
    have hgone := hsubset hmem
    rw [Finset.mem_sdiff, List.mem_toFinset, List.mem_toFinset] at hgone
    exact hgone.2 List.mem_cons_self

/-- What a visit of one node does. -/
def VisitSpec (key : β → α) (next : β → List β) (nodes : List β) (fuel : ℕ) : Prop :=
  ∀ b ∈ nodes, ∀ st : State α β, unvisited key nodes st < fuel →
    ∃ new, Extends key nodes st (visit key next fuel b st) new ∧
      (key b ∈ st.visited → new = []) ∧ (key b ∉ st.visited → ∃ mid, new = mid ++ [b])

/-- A loop of visits marks all its roots. -/
theorem VisitSpec.all {nodes : List β} {fuel : ℕ} (h : VisitSpec key next nodes fuel) :
    ∀ (roots : List β) (st : State α β), (∀ b ∈ roots, b ∈ nodes) →
      unvisited key nodes st < fuel →
        ∃ new, Extends key nodes st (visitAll key next fuel roots st) new ∧
          ∀ b ∈ roots, key b ∈ (visitAll key next fuel roots st).visited := by
  intro roots
  induction roots with
  | nil =>
    intro st _ _
    refine ⟨[], Extends.refl key nodes st, fun b hb => ?_⟩
    cases hb
  | cons b roots ih =>
    intro st hroots hfuel
    obtain ⟨new, hnew, hold, hlast⟩ := h b (hroots b List.mem_cons_self) st hfuel
    obtain ⟨more, hmore, hmarked⟩ := ih (visit key next fuel b st)
      (fun b' hb' => hroots b' (List.mem_cons_of_mem _ hb'))
      (lt_of_le_of_lt hnew.unvisited_le hfuel)
    refine ⟨new ++ more, hnew.trans hmore, fun b' hb' => ?_⟩
    rcases List.mem_cons.mp hb' with rfl | hb'
    · -- the root is marked by its own visit, or was before
      rw [visitAll_cons]
      refine (hmore.visited _).mpr (Or.inl ((hnew.visited _).mpr ?_))
      by_cases hmark : key b' ∈ st.visited
      · exact Or.inl hmark
      · obtain ⟨mid, rfl⟩ := hlast hmark
        refine Or.inr ?_
        simp
    · exact hmarked b' hb'

/-- **One visit.** With enough fuel a visit of an unmarked node puts it at the end of
what it adds; a visit of a marked one adds nothing. -/
theorem visit_spec {nodes : List β} (hclosed : ∀ b ∈ nodes, ∀ d ∈ next b, d ∈ nodes) :
    ∀ fuel, VisitSpec key next nodes fuel := by
  intro fuel
  induction fuel with
  | zero =>
    intro b _ st hfuel
    exact absurd hfuel (Nat.not_lt_zero _)
  | succ fuel ih =>
    intro b hb st hfuel
    by_cases hmark : key b ∈ st.visited
    · refine ⟨[], ?_, fun _ => rfl, fun hnot => absurd hmark hnot⟩
      rw [visit_of_visited _ hmark]
      exact Extends.refl key nodes st
    · have hless : unvisited key nodes ⟨key b :: st.visited, st.order⟩ < fuel := by
        have := unvisited_mark_lt hb hmark
        omega
      obtain ⟨mid, hmid, -⟩ := ih.all (next b) _ (hclosed b hb) hless
      rw [visit_of_not_visited fuel hmark]
      exact ⟨mid ++ [b], hmid.complete hb hmark, fun hnot => absurd hnot hmark,
        fun _ => ⟨mid, rfl⟩⟩

/-! ## Whole orders -/

section Order

variable {nodes : List β}

/-- Before any visit. -/
def start : State α β := ⟨[], []⟩

theorem unvisited_start_le (key : β → α) (nodes : List β) :
    unvisited key nodes start ≤ nodes.length := by
  rw [unvisited, start]
  calc ((nodes.map key).toFinset \ [].toFinset).card
      ≤ (nodes.map key).toFinset.card := Finset.card_le_card Finset.sdiff_subset
    _ ≤ (nodes.map key).length := List.toFinset_card_le _
    _ = nodes.length := List.length_map key

/-- **Every node once.** Visiting all the nodes puts each of them in the order. -/
theorem perm_visitAll (hclosed : ∀ b ∈ nodes, ∀ d ∈ next b, d ∈ nodes)
    (hkeys : (nodes.map key).Nodup) {fuel : ℕ} (hfuel : nodes.length < fuel) :
    (visitAll key next fuel nodes start).order.Perm nodes := by
  obtain ⟨new, hnew, hmarked⟩ := (visit_spec hclosed fuel).all nodes start (fun b hb => hb)
    (lt_of_le_of_lt (unvisited_start_le key nodes) hfuel)
  have horder : (visitAll key next fuel nodes start).order = new := hnew.order
  rw [horder]
  refine (List.perm_ext_iff_of_nodup (List.Nodup.of_map key hnew.nodup)
    (List.Nodup.of_map key hkeys)).mpr fun b => ⟨hnew.mem b, fun hb => ?_⟩
  rcases (hnew.visited _).mp (hmarked b hb) with hold | hadded
  · cases hold
  · obtain ⟨b', hb', hkey⟩ := List.mem_map.mp hadded
    rw [← List.inj_on_of_nodup_map hkeys (hnew.mem b' hb') hb hkey]
    exact hb'

/-! ## Without a cycle -/

/-- The node is marked and not in the order yet: its visit is going on. -/
def Pending (key : β → α) (nodes : List β) (st : State α β) (a : β) : Prop :=
  a ∈ nodes ∧ key a ∈ st.visited ∧ a ∉ st.order

omit [DecidableEq α] in
/-- Completed visits leave nothing pending. -/
theorem Extends.pending {st st' : State α β} {new : List β} {a : β}
    (h : Extends key nodes st st' new) (hkeys : (nodes.map key).Nodup)
    (ha : Pending key nodes st' a) : Pending key nodes st a := by
  obtain ⟨hnode, hmark, horder⟩ := ha
  rw [h.order, List.mem_append, not_or] at horder
  refine ⟨hnode, ?_, horder.1⟩
  rcases (h.visited _).mp hmark with hold | hadded
  · exact hold
  · obtain ⟨b, hb, hkey⟩ := List.mem_map.mp hadded
    rw [List.inj_on_of_nodup_map hkeys (h.mem b hb) hnode hkey] at hb
    exact absurd hb horder.2

/-- The node `d` is needed before the node `b`. -/
def Needed (next : β → List β) (d b : β) : Prop := d ∈ next b

/-- What is needed stays before what needs it, and what is pending needs the visited
node. -/
def TopoSpec (key : β → α) (next : β → List β) (nodes : List β) (fuel : ℕ) : Prop :=
  ∀ b ∈ nodes, ∀ st : State α β, unvisited key nodes st < fuel →
    (∀ a, Pending key nodes st a → Relation.TransGen (Needed next) b a) →
    Topo.Respects (Needed next) st.order →
      Topo.Respects (Needed next) (visit key next fuel b st).order

theorem TopoSpec.all (hclosed : ∀ b ∈ nodes, ∀ d ∈ next b, d ∈ nodes)
    (hkeys : (nodes.map key).Nodup) {fuel : ℕ} (h : TopoSpec key next nodes fuel) :
    ∀ (roots : List β) (st : State α β), (∀ b ∈ roots, b ∈ nodes) →
      unvisited key nodes st < fuel →
      (∀ b ∈ roots, ∀ a, Pending key nodes st a → Relation.TransGen (Needed next) b a) →
      Topo.Respects (Needed next) st.order →
        Topo.Respects (Needed next) (visitAll key next fuel roots st).order := by
  intro roots
  induction roots with
  | nil =>
    intro st _ _ _ hrespects
    exact hrespects
  | cons b roots ih =>
    intro st hroots hfuel hpending hrespects
    obtain ⟨new, hnew, -, -⟩ := visit_spec hclosed fuel b (hroots b List.mem_cons_self) st hfuel
    rw [visitAll_cons]
    apply ih
    · exact fun b' hb' => hroots b' (List.mem_cons_of_mem _ hb')
    · exact lt_of_le_of_lt hnew.unvisited_le hfuel
    · intro b' hb' a ha
      exact hpending b' (List.mem_cons_of_mem _ hb') a (hnew.pending hkeys ha)
    · exact h b (hroots b List.mem_cons_self) st hfuel (hpending b List.mem_cons_self) hrespects

theorem topoSpec (hclosed : ∀ b ∈ nodes, ∀ d ∈ next b, d ∈ nodes)
    (hkeys : (nodes.map key).Nodup) (hacyclic : Topo.Acyclic (Needed next)) :
    ∀ fuel, TopoSpec key next nodes fuel := by
  intro fuel
  induction fuel with
  | zero =>
    intro b _ st hfuel
    exact absurd hfuel (Nat.not_lt_zero _)
  | succ fuel ih =>
    intro b hb st hfuel hpending hrespects
    by_cases hmark : key b ∈ st.visited
    · rw [visit_of_visited _ hmark]
      exact hrespects
    · have hless : unvisited key nodes ⟨key b :: st.visited, st.order⟩ < fuel := by
        have := unvisited_mark_lt hb hmark
        omega
      -- while `b` is visited, `b` is pending as well
      have hinside : ∀ a, Pending key nodes ⟨key b :: st.visited, st.order⟩ a →
          a = b ∨ Relation.TransGen (Needed next) b a := by
        rintro a ⟨hnode, hmark', horder⟩
        rcases List.mem_cons.mp hmark' with hkey | hold
        · exact Or.inl (List.inj_on_of_nodup_map hkeys hnode hb hkey)
        · exact Or.inr (hpending a ⟨hnode, hold, horder⟩)
      obtain ⟨mid, hmid, hmarked⟩ := (visit_spec hclosed fuel).all (next b) _ (hclosed b hb) hless
      have hbefore := ih.all hclosed hkeys (next b) _ (hclosed b hb) hless (fun d hd a ha => by
        rcases hinside a ha with rfl | hpath
        · exact Relation.TransGen.single hd
        · exact Relation.TransGen.head hd hpath) hrespects
      rw [visit_of_not_visited fuel hmark]
      refine Loop.Justified.concat hbefore fun d hd => ?_
      -- what `b` needs is completed: were it pending, `b` would need itself
      by_contra hnot
      rcases hinside d (hmid.pending hkeys ⟨hclosed b hb d hd, hmarked d hd, hnot⟩) with rfl | hpath
      · exact hacyclic d (Relation.TransGen.single hd)
      · exact hacyclic b (Relation.TransGen.tail hpath hd)

/-- **Dependencies first.** Without a cycle every node stands after all it needs. -/
theorem respects_visitAll (hclosed : ∀ b ∈ nodes, ∀ d ∈ next b, d ∈ nodes)
    (hkeys : (nodes.map key).Nodup) (hacyclic : Topo.Acyclic (Needed next)) {fuel : ℕ}
    (hfuel : nodes.length < fuel) :
    Topo.Respects (Needed next) (visitAll key next fuel nodes start).order := by
  refine (topoSpec hclosed hkeys hacyclic fuel).all hclosed hkeys nodes start (fun b hb => hb)
    (lt_of_le_of_lt (unvisited_start_le key nodes) hfuel) ?_ ?_
  · rintro b - a ⟨-, hmark, -⟩
    cases hmark
  · exact Loop.Justified.nil

end Order

end Dfs
