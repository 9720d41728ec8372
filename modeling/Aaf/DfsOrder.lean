import Aaf.Dfs

/-!
# The search itself

The recursion of a depth-first search without fuel: `Visits` relates a list of nodes to be
visited, the state before, and the state after. It has at most one result
(`Visits.unique`), and `visitAll_visits` says that enough fuel computes it. So it is the
relation that the induction runs on here.

* `Visits.spec`: each key is put in the order once, and only nodes that are reached from
  those to be visited are.
* `Visits.ordered`: without a cycle among the keys, every node stands after the keys it
  needs, also when nodes share a key.
* `Visits.first`: which of two nodes that do not need each other comes first is decided by
  `FirstTo`, on the graph alone.
-/

namespace Dfs

universe u v

variable {α : Type u} {β : Type v} {key : β → α} {next : β → List β} {nodes : List β}

/-- Visiting `roots` in turn leads from one state to another. -/
inductive Visits (key : β → α) (next : β → List β) : List β → State α β → State α β → Prop
  | nil (st : State α β) : Visits key next [] st st
  | skip {b : β} {roots : List β} {st st' : State α β} (hmark : key b ∈ st.visited)
      (hrest : Visits key next roots st st') : Visits key next (b :: roots) st st'
  | enter {b : β} {roots : List β} {st mid st' : State α β} (hmark : key b ∉ st.visited)
      (hinner : Visits key next (next b) ⟨key b :: st.visited, st.order⟩ mid)
      (hrest : Visits key next roots ⟨mid.visited, mid.order ++ [b]⟩ st') :
      Visits key next (b :: roots) st st'

/-- The search has one result. -/
theorem Visits.unique {roots : List β} {st st' st'' : State α β}
    (h : Visits key next roots st st') (h' : Visits key next roots st st'') : st' = st'' := by
  induction h generalizing st'' with
  | nil st =>
    cases h'
    rfl
  | skip hmark _ ih =>
    cases h' with
    | skip _ hrest' => exact ih hrest'
    | enter hmark' _ _ => exact absurd hmark hmark'
  | enter hmark _ _ ihinner ihrest =>
    cases h' with
    | skip hmark' _ => exact absurd hmark' hmark
    | enter _ hinner' hrest' =>
      have hmid := ihinner hinner'
      subst hmid
      exact ihrest hrest'

/-- **Termination.** With enough fuel the search is done. -/
theorem visitAll_visits [DecidableEq α] (hclosed : ∀ b ∈ nodes, ∀ d ∈ next b, d ∈ nodes) :
    ∀ (fuel : ℕ) (roots : List β) (st : State α β), (∀ b ∈ roots, b ∈ nodes) →
      unvisited key nodes st < fuel →
        Visits key next roots st (visitAll key next fuel roots st) := by
  intro fuel
  induction fuel with
  | zero => exact fun _ _ _ hfuel => absurd hfuel (Nat.not_lt_zero _)
  | succ fuel ihfuel =>
    intro roots
    induction roots with
    | nil => exact fun st _ _ => .nil st
    | cons b roots ihroots =>
      intro st hroots hfuel
      have hb := hroots b List.mem_cons_self
      have hroots' : ∀ b ∈ roots, b ∈ nodes := fun b hb => hroots b (List.mem_cons_of_mem _ hb)
      rw [visitAll_cons]
      by_cases hmark : key b ∈ st.visited
      · rw [visit_of_visited _ hmark]
        exact .skip hmark (ihroots st hroots' hfuel)
      · obtain ⟨new, hnew, -, -⟩ := visit_spec hclosed (fuel + 1) b hb st hfuel
        have hrest := ihroots (visit key next (fuel + 1) b st) hroots'
          (lt_of_le_of_lt hnew.unvisited_le hfuel)
        have hless : unvisited key nodes ⟨key b :: st.visited, st.order⟩ < fuel := by
          have := unvisited_mark_lt hb hmark
          omega
        have hinner := ihfuel (next b) ⟨key b :: st.visited, st.order⟩ (hclosed b hb) hless
        rw [visit_of_not_visited fuel hmark] at hrest ⊢
        exact .enter hmark hinner hrest

/-! ## What is put in the order -/

/-- `c` is `d`, or is needed before it, directly or not. -/
def Reaches (next : β → List β) (d c : β) : Prop := Relation.ReflTransGen (Needed next) c d

theorem Reaches.of_next {b d c : β} (hd : d ∈ next b) (h : Reaches next d c) :
    Reaches next b c := Relation.ReflTransGen.tail h hd

/-- Every root is marked, and the nodes put in the order are new, each key once, and reached
from the roots. -/
theorem Visits.spec (hclosed : ∀ b ∈ nodes, ∀ d ∈ next b, d ∈ nodes) {roots : List β}
    {st st' : State α β} (h : Visits key next roots st st') (hroots : ∀ b ∈ roots, b ∈ nodes) :
    ∃ new, Extends key nodes st st' new ∧ (∀ b ∈ roots, key b ∈ st'.visited) ∧
      ∀ c ∈ new, ∃ b ∈ roots, Reaches next b c := by
  induction h with
  | nil st =>
    exact ⟨[], Extends.refl key nodes st, fun _ hb => absurd hb List.not_mem_nil,
      fun _ hc => absurd hc List.not_mem_nil⟩
  | @skip b roots st st' hmark _ ih =>
    obtain ⟨new, hnew, hmarked, hreached⟩ := ih fun b hb => hroots b (List.mem_cons_of_mem _ hb)
    refine ⟨new, hnew, fun b' hb' => ?_, fun c hc => ?_⟩
    · rcases List.mem_cons.mp hb' with rfl | hb'
      · exact (hnew.visited _).mpr (Or.inl hmark)
      · exact hmarked b' hb'
    · obtain ⟨b', hb', hpath⟩ := hreached c hc
      exact ⟨b', List.mem_cons_of_mem _ hb', hpath⟩
  | @enter b roots st mid st' hmark _ _ ihinner ihrest =>
    have hb := hroots b List.mem_cons_self
    obtain ⟨inner, hinner, -, hfrom⟩ := ihinner (hclosed b hb)
    obtain ⟨rest, hrest, hmarked, hreached⟩ :=
      ihrest fun b hb => hroots b (List.mem_cons_of_mem _ hb)
    refine ⟨(inner ++ [b]) ++ rest, (hinner.complete hb hmark).trans hrest, fun b' hb' => ?_,
      fun c hc => ?_⟩
    · rcases List.mem_cons.mp hb' with rfl | hb'
      · refine (hrest.visited _).mpr (Or.inl ((hinner.visited _).mpr (Or.inl ?_)))
        exact List.mem_cons_self
      · exact hmarked b' hb'
    · rcases List.mem_append.mp hc with hc | hc
      · refine ⟨b, List.mem_cons_self, ?_⟩
        rcases List.mem_append.mp hc with hc | hc
        · obtain ⟨d, hd, hpath⟩ := hfrom c hc
          exact hpath.of_next hd
        · rw [List.mem_singleton.mp hc]
          exact .refl
      · obtain ⟨b', hb', hpath⟩ := hreached c hc
        exact ⟨b', List.mem_cons_of_mem _ hb', hpath⟩

/-! ## Needed keys first -/

/-- Every node stands after the keys it needs. -/
def Ordered (key : β → α) (next : β → List β) (order : List β) : Prop :=
  ∀ pre c post, order = pre ++ c :: post → ∀ d ∈ next c, key d ∈ pre.map key

/-- The key `k` is needed before the key `a`, by a node that has it. -/
def KeyNeeded (key : β → α) (next : β → List β) (nodes : List β) (k a : α) : Prop :=
  ∃ c ∈ nodes, key c = a ∧ ∃ d ∈ next c, key d = k

/-- The key is marked, and its node not in the order yet: a visit is going on. -/
def Open (key : β → α) (st : State α β) (k : α) : Prop :=
  k ∈ st.visited ∧ k ∉ st.order.map key

/-- The visits that are going on need the roots; what is in the order is ordered. -/
structure Proper (key : β → α) (next : β → List β) (nodes : List β) (roots : List β)
    (st : State α β) : Prop where
  roots_mem : ∀ b ∈ roots, b ∈ nodes
  order_mem : ∀ c ∈ st.order, c ∈ nodes
  order_marked : ∀ c ∈ st.order, key c ∈ st.visited
  needs : ∀ k, Open key st k → ∀ b ∈ roots,
    Relation.TransGen (KeyNeeded key next nodes) (key b) k
  ordered : Ordered key next st.order

theorem Proper.start {roots : List β} (h : ∀ b ∈ roots, b ∈ nodes) :
    Proper key next nodes roots Dfs.start where
  roots_mem := h
  order_mem := fun _ hc => absurd hc List.not_mem_nil
  order_marked := fun _ hc => absurd hc List.not_mem_nil
  needs := fun _ hopen => absurd hopen.1 List.not_mem_nil
  ordered := Loop.Justified.nil

theorem Proper.tail {b : β} {roots : List β} {st : State α β}
    (h : Proper key next nodes (b :: roots) st) : Proper key next nodes roots st :=
  ⟨fun b hb => h.roots_mem b (List.mem_cons_of_mem _ hb), h.order_mem, h.order_marked,
    fun k hk b hb => h.needs k hk b (List.mem_cons_of_mem _ hb), h.ordered⟩

/-- What a visit in progress needs next. -/
theorem Proper.inner (hclosed : ∀ b ∈ nodes, ∀ d ∈ next b, d ∈ nodes) {b : β} {roots : List β}
    {st : State α β} (h : Proper key next nodes (b :: roots) st) :
    Proper key next nodes (next b) ⟨key b :: st.visited, st.order⟩ := by
  have hb := h.roots_mem b List.mem_cons_self
  refine ⟨hclosed b hb, h.order_mem, fun c hc => List.mem_cons_of_mem _ (h.order_marked c hc), ?_,
    h.ordered⟩
  rintro k ⟨hmark, hout⟩ d hd
  have hedge : KeyNeeded key next nodes (key d) (key b) := ⟨b, hb, rfl, d, hd, rfl⟩
  rcases List.mem_cons.mp hmark with rfl | hmark
  · exact .single hedge
  · exact .head hedge (h.needs k ⟨hmark, hout⟩ b List.mem_cons_self)

/-- Completed visits leave nothing open. -/
theorem Extends.open_of_open {st st' : State α β} {new : List β} {k : α}
    (h : Extends key nodes st st' new) (hk : Open key st' k) : Open key st k := by
  obtain ⟨hmark, hout⟩ := hk
  rw [h.order, List.map_append, List.mem_append, not_or] at hout
  exact ⟨((h.visited k).mp hmark).resolve_right hout.2, hout.1⟩

/-- Where the other roots are visited from, when the first visit is complete. -/
theorem Proper.rest (hclosed : ∀ b ∈ nodes, ∀ d ∈ next b, d ∈ nodes)
    (hacyclic : Topo.Acyclic (KeyNeeded key next nodes)) {b : β} {roots : List β}
    {st mid : State α β} (h : Proper key next nodes (b :: roots) st)
    (hmark : key b ∉ st.visited)
    (hvisits : Visits key next (next b) ⟨key b :: st.visited, st.order⟩ mid)
    (hordered : Ordered key next mid.order) :
    Proper key next nodes roots ⟨mid.visited, mid.order ++ [b]⟩ := by
  have hb := h.roots_mem b List.mem_cons_self
  obtain ⟨new, hnew, hmarked, -⟩ := hvisits.spec hclosed (hclosed b hb)
  have hextends := hnew.complete hb hmark
  refine ⟨h.tail.roots_mem, fun c hc => ?_, fun c hc => ?_, fun k hk b' hb' => ?_,
    Loop.Justified.concat hordered fun d hd => ?_⟩
  · rcases List.mem_append.mp (hextends.order ▸ hc) with hc | hc
    · exact h.order_mem c hc
    · exact hextends.mem c hc
  · refine (hextends.visited _).mpr ?_
    rcases List.mem_append.mp (hextends.order ▸ hc) with hc | hc
    · exact Or.inl (h.order_marked c hc)
    · exact Or.inr (List.mem_map_of_mem hc)
  · exact h.tail.needs k (hextends.open_of_open hk) b' hb'
  · -- what `b` needs is complete: were its visit going on, it would need itself
    by_contra hout
    have hneeds := h.inner hclosed
    have hopen := hnew.open_of_open ⟨hmarked d hd, hout⟩
    exact hacyclic _ (hneeds.needs _ hopen d hd)

/-- **Needed keys first.** Without a cycle among the keys the order of a search is
ordered. -/
theorem Visits.ordered (hclosed : ∀ b ∈ nodes, ∀ d ∈ next b, d ∈ nodes)
    (hacyclic : Topo.Acyclic (KeyNeeded key next nodes)) {roots : List β} {st st' : State α β}
    (h : Visits key next roots st st') (hproper : Proper key next nodes roots st) :
    Ordered key next st'.order := by
  induction h with
  | nil => exact hproper.ordered
  | skip _ _ ih => exact ih hproper.tail
  | enter hmark hinner _ ihinner ihrest =>
    exact ihrest (hproper.rest hclosed hacyclic hmark hinner (ihinner (hproper.inner hclosed)))

/-! ## Which of two nodes comes first -/

/-- Going down from a list, always to the first entry that is or needs `x` or `y`, and into
what it needs while it needs both, one comes to an entry that is or needs `x` only. -/
inductive FirstTo (next : β → List β) (x y : β) : List β → Prop
  | skip {d : β} {rest : List β} (hx : ¬ Reaches next d x) (hy : ¬ Reaches next d y)
      (h : FirstTo next x y rest) : FirstTo next x y (d :: rest)
  | here {d : β} {rest : List β} (hx : Reaches next d x) (hy : ¬ Reaches next d y) :
      FirstTo next x y (d :: rest)
  | inside {d : β} {rest : List β} (hx : Reaches next d x) (hy : Reaches next d y)
      (h : FirstTo next x y (next d)) : FirstTo next x y (d :: rest)

/-- It is one of the two only. -/
theorem FirstTo.asymm {x y : β} {l : List β} (h : FirstTo next x y l) :
    ¬ FirstTo next y x l := by
  induction h with
  | skip hx hy _ ih =>
    intro h'
    cases h' with
    | skip _ _ hrest => exact ih hrest
    | here hy' _ => exact hy hy'
    | inside hy' _ _ => exact hy hy'
  | here hx hy =>
    intro h'
    cases h' with
    | skip _ hx' _ => exact hx' hx
    | here hy' _ => exact hy hy'
    | inside hy' _ _ => exact hy hy'
  | inside hx hy _ ih =>
    intro h'
    cases h' with
    | skip hy' _ _ => exact hy' hy
    | here _ hx' => exact hx' hx
    | inside _ _ hinner => exact ih hinner

/-- The list has `x`, and no `y` before it. -/
def Precedes (x y : β) (l : List β) : Prop := ∃ pre post, l = pre ++ x :: post ∧ y ∉ pre

theorem Precedes.of_mem {x y : β} {l : List β} (hx : x ∈ l) (hy : y ∉ l) : Precedes x y l := by
  obtain ⟨pre, post, rfl⟩ := List.append_of_mem hx
  exact ⟨pre, post, rfl, fun hmem => hy (List.mem_append_left _ hmem)⟩

theorem Precedes.append {x y : β} {l : List β} (h : Precedes x y l) (more : List β) :
    Precedes x y (l ++ more) := by
  obtain ⟨pre, post, rfl, hy⟩ := h
  exact ⟨pre, post ++ more, by rw [List.append_assoc, List.cons_append], hy⟩

/-- The search comes to one of the two first, and it is the one that the order has first. -/
def Decided (next : β → List β) (x y : β) (roots order : List β) : Prop :=
  (FirstTo next x y roots ∧ Precedes x y order) ∨ (FirstTo next y x roots ∧ Precedes y x order)

section Decided

variable {x y b : β} {roots order : List β}

theorem Decided.skip (hx : ¬ Reaches next b x) (hy : ¬ Reaches next b y)
    (h : Decided next x y roots order) : Decided next x y (b :: roots) order := by
  rcases h with ⟨hfirst, hpre⟩ | ⟨hfirst, hpre⟩
  · exact Or.inl ⟨.skip hx hy hfirst, hpre⟩
  · exact Or.inr ⟨.skip hy hx hfirst, hpre⟩

theorem Decided.inside (hx : Reaches next b x) (hy : Reaches next b y)
    (h : Decided next x y (next b) order) : Decided next x y (b :: roots) order := by
  rcases h with ⟨hfirst, hpre⟩ | ⟨hfirst, hpre⟩
  · exact Or.inl ⟨.inside hx hy hfirst, hpre⟩
  · exact Or.inr ⟨.inside hy hx hfirst, hpre⟩

theorem Decided.append (h : Decided next x y roots order) (more : List β) :
    Decided next x y roots (order ++ more) := by
  rcases h with ⟨hfirst, hpre⟩ | ⟨hfirst, hpre⟩
  · exact Or.inl ⟨hfirst, hpre.append more⟩
  · exact Or.inr ⟨hfirst, hpre.append more⟩

end Decided

section Distinct

variable (hclosed : ∀ b ∈ nodes, ∀ d ∈ next b, d ∈ nodes) (hkeys : (nodes.map key).Nodup)
  (hacyclic : Topo.Acyclic (Needed next))

include hclosed hkeys hacyclic in
/-- A cycle among distinct keys is one among the nodes. -/
theorem acyclic_keyNeeded : Topo.Acyclic (KeyNeeded key next nodes) := by
  have hpath : ∀ {k a}, Relation.TransGen (KeyNeeded key next nodes) k a →
      ∃ d ∈ nodes, ∃ c ∈ nodes, key d = k ∧ key c = a ∧ Relation.TransGen (Needed next) d c := by
    intro k a h
    induction h with
    | single hedge =>
      obtain ⟨c, hc, hkey, d, hd, hkey'⟩ := hedge
      exact ⟨d, hclosed c hc d hd, c, hc, hkey', hkey, .single hd⟩
    | tail _ hedge ih =>
      obtain ⟨d, hd, c, hc, hkey, hkey', hpath⟩ := ih
      obtain ⟨c', hc', hkey'', d', hd', heq⟩ := hedge
      have hsame : d' = c :=
        List.inj_on_of_nodup_map hkeys (hclosed c' hc' d' hd') hc (heq.trans hkey'.symm)
      exact ⟨d, hd, c', hc', hkey, hkey'', hpath.tail (hsame ▸ hd')⟩
  intro k hcycle
  obtain ⟨d, hd, c, hc, hkey, hkey', hpath⟩ := hpath hcycle
  rw [List.inj_on_of_nodup_map hkeys hd hc (hkey.trans hkey'.symm)] at hpath
  exact hacyclic c hpath

include hclosed hkeys in
/-- What a node in the order needs is in the order. -/
theorem Ordered.mem_of_reaches {order : List β} (h : Ordered key next order)
    (hmem : ∀ c ∈ order, c ∈ nodes) {b c : β} (hb : b ∈ order) (hpath : Reaches next b c) :
    c ∈ order := by
  induction hpath using Relation.ReflTransGen.head_induction_on with
  | refl => exact hb
  | @head a d hneeded _ ih =>
    obtain ⟨pre, post, hsplit⟩ := List.append_of_mem ih
    obtain ⟨a', ha', hkey⟩ := List.mem_map.mp (h pre d post hsplit a hneeded)
    have ha'' : a' ∈ order := hsplit ▸ List.mem_append_left _ ha'
    rw [← List.inj_on_of_nodup_map hkeys (hmem a' ha'') (hclosed d (hmem d ih) a hneeded) hkey]
    exact ha''

include hclosed hkeys hacyclic in
/-- A node that is marked when its visit is due is complete, with all that it needs. -/
theorem Proper.reached_marked {b : β} {roots : List β} {st : State α β}
    (h : Proper key next nodes (b :: roots) st) (hmark : key b ∈ st.visited) {c : β}
    (hpath : Reaches next b c) : key c ∈ st.visited := by
  have hb := h.roots_mem b List.mem_cons_self
  have hin : key b ∈ st.order.map key := by
    by_contra hout
    exact acyclic_keyNeeded hclosed hkeys hacyclic _
      (h.needs _ ⟨hmark, hout⟩ b List.mem_cons_self)
  obtain ⟨b', hb', hkey⟩ := List.mem_map.mp hin
  rw [List.inj_on_of_nodup_map hkeys (h.order_mem b' hb') hb hkey] at hb'
  exact h.order_marked c (h.ordered.mem_of_reaches hclosed hkeys h.order_mem hb' hpath)

include hclosed hkeys hacyclic in
/-- When a visit is complete, what was not marked before is in the order exactly when the
node reaches it. -/
theorem Visits.mem_complete_iff {b : β} {roots : List β} {st mid : State α β}
    (hproper : Proper key next nodes (b :: roots) st) (hmark : key b ∉ st.visited)
    (hvisits : Visits key next (next b) ⟨key b :: st.visited, st.order⟩ mid) {c : β}
    (hc : c ∈ nodes) (hnot : key c ∉ st.visited) :
    (c ∈ mid.order ++ [b] ↔ Reaches next b c) ∧
      (key c ∈ mid.visited ↔ Reaches next b c) := by
  have hb := hproper.roots_mem b List.mem_cons_self
  have hcycle := acyclic_keyNeeded hclosed hkeys hacyclic
  obtain ⟨new, hnew, -, hfrom⟩ := hvisits.spec hclosed (hclosed b hb)
  have hextends := hnew.complete hb hmark
  have hrest := hproper.rest hclosed hcycle hmark hvisits
    (hvisits.ordered hclosed hcycle (hproper.inner hclosed))
  have hreached : ∀ c ∈ new ++ [b], Reaches next b c := by
    intro c hc
    rcases List.mem_append.mp hc with hc | hc
    · obtain ⟨d, hd, hpath⟩ := hfrom c hc
      exact hpath.of_next hd
    · rw [List.mem_singleton.mp hc]
      exact .refl
  have hback : Reaches next b c → c ∈ mid.order ++ [b] := fun hpath =>
    hrest.ordered.mem_of_reaches hclosed hkeys hrest.order_mem
      (List.mem_append_right _ List.mem_cons_self) hpath
  refine ⟨⟨fun hin => ?_, hback⟩, fun hin => ?_, fun hpath => hrest.order_marked c (hback hpath)⟩
  · have horder : mid.order ++ [b] = st.order ++ (new ++ [b]) := hextends.order
    rw [horder] at hin
    rcases List.mem_append.mp hin with hin | hin
    · exact absurd (hproper.order_marked c hin) hnot
    · exact hreached c hin
  · obtain ⟨c', hc', hkey⟩ :=
      List.mem_map.mp (((hextends.visited _).mp hin).resolve_left hnot)
    rw [← List.inj_on_of_nodup_map hkeys (hextends.mem c' hc') hc hkey]
    exact hreached c' hc'

include hkeys in
/-- What does not need a node that `b` needs is not `b`, and is not marked with it. -/
theorem notMem_mark {b x y : β} (hx : x ∈ nodes) (hb : b ∈ nodes) (hxy : ¬ Reaches next x y)
    (hby : Reaches next b y) {visited : List α} (hnot : key x ∉ visited) :
    key x ∉ key b :: visited := by
  intro hmem
  rcases List.mem_cons.mp hmem with hkey | hmem
  · rw [List.inj_on_of_nodup_map hkeys hx hb hkey] at hxy
    exact hxy hby
  · exact hnot hmem

include hclosed hkeys hacyclic in
/-- **Which comes first.** Of two unmarked nodes that do not need each other, one of which
the roots reach, that one is put in the order first that `FirstTo` says. -/
theorem Visits.first {x y : β} (hx : x ∈ nodes) (hy : y ∈ nodes)
    (hxy : ¬ Reaches next x y) (hyx : ¬ Reaches next y x) {roots : List β} {st st' : State α β}
    (h : Visits key next roots st st') (hproper : Proper key next nodes roots st)
    (hnx : key x ∉ st.visited) (hny : key y ∉ st.visited)
    (hsome : ∃ b ∈ roots, Reaches next b x ∨ Reaches next b y) :
    Decided next x y roots st'.order := by
  have hcycle := acyclic_keyNeeded hclosed hkeys hacyclic
  induction h with
  | nil =>
    obtain ⟨b, hb, -⟩ := hsome
    cases hb
  | @skip b roots st st' hmark _ ih =>
    have hbx : ¬ Reaches next b x := fun hpath =>
      hnx (hproper.reached_marked hclosed hkeys hacyclic hmark hpath)
    have hby : ¬ Reaches next b y := fun hpath =>
      hny (hproper.reached_marked hclosed hkeys hacyclic hmark hpath)
    have hrest := (List.or_exists_of_exists_mem_cons hsome).resolve_left (not_or.mpr ⟨hbx, hby⟩)
    exact (ih hproper.tail hnx hny hrest).skip hbx hby
  | @enter b roots st mid st' hmark hinner hvisits ihinner ihrest =>
    have hb := hproper.roots_mem b List.mem_cons_self
    have hordered := hinner.ordered hclosed hcycle (hproper.inner hclosed)
    have hrest := hproper.rest hclosed hcycle hmark hinner hordered
    obtain ⟨more, hmore, -, -⟩ := hvisits.spec hclosed hrest.roots_mem
    have horder : st'.order = mid.order ++ [b] ++ more := hmore.order
    obtain ⟨hinx, hmarkx⟩ := hinner.mem_complete_iff hclosed hkeys hacyclic hproper hmark hx hnx
    obtain ⟨hiny, hmarky⟩ := hinner.mem_complete_iff hclosed hkeys hacyclic hproper hmark hy hny
    by_cases hbx : Reaches next b x
    · by_cases hby : Reaches next b y
      · -- both are needed: what decides is inside
        have hsome' : ∃ d ∈ next b, Reaches next d x ∨ Reaches next d y := by
          rcases Relation.ReflTransGen.cases_tail hbx with rfl | ⟨d, hpath, hd⟩
          · exact absurd hby hxy
          · exact ⟨d, hd, Or.inl hpath⟩
        have hdecided := ihinner (hproper.inner hclosed) (notMem_mark hkeys hx hb hxy hby hnx)
          (notMem_mark hkeys hy hb hyx hbx hny) hsome'
        rw [horder, List.append_assoc]
        exact (hdecided.append _).inside hbx hby
      · refine Or.inl ⟨.here hbx hby, ?_⟩
        rw [horder]
        exact (Precedes.of_mem (hinx.mpr hbx) fun hin => hby (hiny.mp hin)).append more
    · by_cases hby : Reaches next b y
      · refine Or.inr ⟨.here hby hbx, ?_⟩
        rw [horder]
        exact (Precedes.of_mem (hiny.mpr hby) fun hin => hbx (hinx.mp hin)).append more
      · have hsome' :=
          (List.or_exists_of_exists_mem_cons hsome).resolve_left (not_or.mpr ⟨hbx, hby⟩)
        have hdecided := ihrest hrest (fun hmem => hbx (hmarkx.mp hmem))
          (fun hmem => hby (hmarky.mp hmem)) hsome'
        exact hdecided.skip hbx hby

end Distinct

end Dfs
