import DotLang.Proofs.Dot.RoundTrip

/-
  This file proves which member of a graph its name stands for.

  Graphs around each other never own two nodes of one name, but
  graphs beside each other may, and an edge makes nodes of one
  of them members of the graph around both.  The name of such a
  member stands for the first node in the order of the graphs.

  Key definitions include:
    * `Registry.IsShadowed`

  Key theorems include:
    * `Registry.findNode?_eq_of_mem_lineage`
    * `Registry.findNestedNode?_eq_some_iff`
    * `Registry.member_resolves_iff`
-/

------------------------------------------------------------
-- Shadows
------------------------------------------------------------

namespace DotLang

namespace Registry

variable {F : Factory} {r : Registry F} {g : GraphId} {n : NodeId}

/-
  Of the graphs inside a graph, one that stands before the owner
  of the node owns a node of the same name.
-/
def IsShadowed
    (r : Registry F)
    (g : GraphId)
    (n : NodeId) : Prop :=
  ∃ before after,
    r.subgraphs g = before ++ (r.node n).owner :: after ∧
      ∃ h ∈ before,
        ∃ m ∈ (r.graph h).nodes, (r.node m).name = (r.node n).name

/- Graphs around each other own one node of a name at most. -/
theorem eq_of_localNode?
    (hScoped : r.IsScoped)
    (hn : r.HasNode n)
    {h : GraphId}
    {m : NodeId}
    (hLocal : r.localNode? h (r.node n).name = some m)
    (hNested : r.AreNested h (r.node n).owner) :
    m = n := by
  rcases hScoped.isIndexed.mem_of_localNode?_eq_some hLocal with
    ⟨hNode, hName⟩
  rcases hScoped.mem_nodes.mp hNode with ⟨hm, rfl⟩
  exact hScoped.unique hm hn hName hNested

theorem localNode?_self
    (hForest : r.IsForest)
    (hScoped : r.IsScoped)
    (hn : r.HasNode n) :
    r.localNode? (r.node n).owner (r.node n).name = some n := by
  have hIndexed := hScoped.isIndexed
  have hOwner := hScoped.hasOwner hn
  have hNode := hScoped.mem_nodes.mpr ⟨hn, rfl⟩
  cases hLocal : r.localNode? (r.node n).owner (r.node n).name with
  | none =>
      exact absurd rfl
        (hIndexed.localNode?_eq_none_iff.mp hLocal n hNode)
  | some m =>
      have hSelf := hForest.mem_lineage_self hOwner
      rw [eq_of_localNode? hScoped hn hLocal (.inl hSelf)]

/- A node of a graph around is found by its name. -/
theorem findNode?_eq_of_mem_lineage
    (hForest : r.IsForest)
    (hScoped : r.IsScoped)
    (hg : r.HasGraph g)
    (hn : r.HasNode n)
    (hOwner : (r.node n).owner ∈ r.lineage g) :
    r.findNode? g (r.node n).name = some n := by
  cases hFind : r.findNode? g (r.node n).name with
  | none =>
      have hNone := List.findSome?_eq_none_iff.mp hFind _ hOwner
      rw [localNode?_self hForest hScoped hn] at hNone
      cases hNone
  | some m =>
      rcases List.exists_of_findSome?_eq_some hFind with
        ⟨h, hMem, hLocal⟩
      rw [eq_of_localNode? hScoped hn hLocal
        (hForest.lineage_comparable hg hMem hOwner)]

/- The graphs around have no node with the name of one inside. -/
theorem findNode?_eq_none
    (hForest : r.IsForest)
    (hScoped : r.IsScoped)
    (hn : r.HasNode n)
    (hInside : g ∈ r.lineage (r.node n).owner)
    (hOwner : (r.node n).owner ∉ r.lineage g) :
    r.findNode? g (r.node n).name = none := by
  cases hFind : r.findNode? g (r.node n).name with
  | none => rfl
  | some m =>
      rcases List.exists_of_findSome?_eq_some hFind with
        ⟨h, hMem, hLocal⟩
      have hAround :=
        hForest.lineage_subset (hScoped.hasOwner hn) hInside hMem
      have hSame :=
        eq_of_localNode? hScoped hn hLocal (.inl hAround)
      have hNode :=
        (hScoped.isIndexed.mem_of_localNode?_eq_some hLocal).1
      rw [hSame] at hNode
      rw [(hScoped.mem_nodes.mp hNode).2] at hOwner
      exact absurd hMem hOwner

/- A node inside is found unless another one comes first. -/
theorem findNestedNode?_eq_some_iff
    (hForest : r.IsForest)
    (hScoped : r.IsScoped)
    (hg : r.HasGraph g)
    (hn : r.HasNode n)
    (hOwner : (r.node n).owner ∈ r.subgraphs g) :
    r.findNestedNode? g (r.node n).name = some n ↔
      ¬ r.IsShadowed g n := by
  have hIndexed := hScoped.isIndexed
  have hNodup : (r.subgraphs g).Nodup :=
    (List.nodup_cons.mp (hForest.nodup_extent hg)).2
  constructor
  · rintro hFind ⟨before, after, hSplit, h, hMem, m, hNode, hName⟩
    rw [hSplit] at hNodup
    have hApart := (List.nodup_append.mp hNodup).2.2
    rw [findNestedNode?, hSplit, List.findSome?_append,
      Option.or_eq_some_iff] at hFind
    rcases hFind with hFirst | ⟨hNone, -⟩
    · rcases List.exists_of_findSome?_eq_some hFirst with
        ⟨f, hBefore, hLocal⟩
      have hOwned := (hIndexed.mem_of_localNode?_eq_some hLocal).1
      exact hApart f hBefore f (by
        rw [(hScoped.mem_nodes.mp hOwned).2]
        exact List.mem_cons_self) rfl
    · have hLocal := List.findSome?_eq_none_iff.mp hNone h hMem
      exact hIndexed.localNode?_eq_none_iff.mp hLocal m hNode hName
  · intro hNot
    rcases List.append_of_mem hOwner with ⟨before, after, hSplit⟩
    have hNone :
        before.findSome?
            (fun h => r.localNode? h (r.node n).name) = none := by
      apply List.findSome?_eq_none_iff.mpr
      intro h hMem
      apply hIndexed.localNode?_eq_none_iff.mpr
      intro m hNode hName
      exact hNot ⟨before, after, hSplit, h, hMem, m, hNode, hName⟩
    rw [findNestedNode?, hSplit, List.findSome?_append, hNone,
      List.findSome?_cons, localNode?_self hForest hScoped hn]
    rfl

/- A graph is not one of those inside it. -/
theorem not_isShadowed_of_mem_lineage
    (hForest : r.IsForest)
    (hg : r.HasGraph g)
    (hOwner : (r.node n).owner ∈ r.lineage g) :
    ¬ r.IsShadowed g n := by
  rintro ⟨before, after, hSplit, -⟩
  have hMem : (r.node n).owner ∈ r.subgraphs g := by
    rw [hSplit]
    exact List.mem_append_right _ List.mem_cons_self
  have hInside :=
    ((hForest.mem_extent hg).mp (List.mem_cons_of_mem _ hMem)).2
  have hSame := hForest.lineage_antisymm hg hOwner hInside
  have hNodup := hForest.nodup_extent hg
  rw [hSame] at hMem
  exact (List.nodup_cons.mp hNodup).1 hMem

------------------------------------------------------------
-- Names of Members
------------------------------------------------------------

/- The name of a member stands for it unless it is shadowed. -/
theorem resolveNode?_eq_some_iff
    (hForest : r.IsForest)
    (hScoped : r.IsScoped)
    (hMem : n ∈ (r.graph g).members) :
    r.resolveNode? g (r.node n).name = some n ↔
      ¬ r.IsShadowed g n := by
  have hg := hasGraph_of_mem_members hMem
  have hn := hScoped.hasNode hMem
  have hScope := (hForest.mem_scopes hg).mpr
    ⟨hScoped.hasOwner hn, hScoped.nested hMem⟩
  by_cases hOwner : (r.node n).owner ∈ r.lineage g
  · have hFind :=
      findNode?_eq_of_mem_lineage hForest hScoped hg hn hOwner
    rw [resolveNode?, hFind, Option.some_or]
    exact iff_of_true rfl
      (not_isShadowed_of_mem_lineage hForest hg hOwner)
  · have hSub : (r.node n).owner ∈ r.subgraphs g :=
      (List.mem_append.mp hScope).resolve_left hOwner
    have hInside := ((hForest.mem_extent hg).mp
      (List.mem_cons_of_mem _ hSub)).2
    have hNone :=
      findNode?_eq_none hForest hScoped hn hInside hOwner
    rw [resolveNode?, hNone, Option.none_or]
    exact findNestedNode?_eq_some_iff hForest hScoped hg hn hSub

/- Some node of its name stands for every member. -/
theorem exists_resolveNode?_eq_some
    (hForest : r.IsForest)
    (hScoped : r.IsScoped)
    (hMem : n ∈ (r.graph g).members) :
    ∃ m,
      r.resolveNode? g (r.node n).name = some m ∧
        (r.node m).name = (r.node n).name := by
  have hg := hasGraph_of_mem_members hMem
  have hn := hScoped.hasNode hMem
  cases hFind : r.resolveNode? g (r.node n).name with
  | none =>
      have hScope := (hForest.mem_scopes hg).mpr
        ⟨hScoped.hasOwner hn, hScoped.nested hMem⟩
      exact absurd rfl
        (hScoped.isIndexed.resolveNode?_eq_none_iff.mp hFind _ hScope
          n (hScoped.mem_nodes.mpr ⟨hn, rfl⟩))
  | some m =>
      rcases hScoped.isIndexed.exists_of_resolveNode?_eq_some
        hFind with ⟨_, _, _, hName⟩
      exact ⟨m, rfl, hName⟩

/-
  Whatever text is loaded, names of members are found, and find
  the members that are not shadowed.  The ends of the edges of a
  graph are among its members.
-/
theorem member_resolves_iff
    (factory : F.State)
    (options : Options)
    (source : String) :
    let r :=
      ((empty factory options : Registry F).load source).registry
    ∀ g : GraphId,
      (∀ n ∈ (r.graph g).members,
          (∃ m,
              r.resolveNode? g (r.node n).name = some m ∧
                (r.node m).name = (r.node n).name) ∧
            (r.resolveNode? g (r.node n).name = some n ↔
              ¬ r.IsShadowed g n)) ∧
        ∀ e ∈ (r.graph g).edges,
          (r.edge e).tail ∈ (r.graph g).members ∧
            (r.edge e).head ∈ (r.graph g).members := by
  intro r g
  have hBuilt := isBuilt_load factory options source
  constructor
  · intro n hMem
    exact ⟨exists_resolveNode?_eq_some hBuilt.isForest
        hBuilt.isScoped hMem,
      resolveNode?_eq_some_iff hBuilt.isForest hBuilt.isScoped hMem⟩
  · intro e hMem
    rcases hBuilt.isLinked.mem_edges.mp hMem with ⟨he, rfl⟩
    exact ⟨hBuilt.isLinked.tail_mem he, hBuilt.isLinked.head_mem he⟩

/- Two subgraphs own a node of one name; an edge ends in one. -/
def twins : Loading .plain :=
  (empty () {} : Registry .plain).load
    "graph \x7b \x7bx\x7d y -- subgraph b \x7bx\x7d \x7d"

/- The node of the second subgraph is shadowed by the first. -/
theorem isShadowed_twins :
    ⟨1⟩ ∈ (twins.registry.graph ⟨0⟩).members ∧
      ⟨2⟩ ∈ (twins.registry.graph ⟨0⟩).members ∧
      ⟨0⟩ ∈ (twins.registry.graph ⟨0⟩).edges ∧
      ¬ twins.registry.IsShadowed ⟨0⟩ ⟨1⟩ ∧
      twins.registry.IsShadowed ⟨0⟩ ⟨2⟩ := by
  have hFirst : ⟨1⟩ ∈ (twins.registry.graph ⟨0⟩).members := by
    decide +kernel
  have hSecond : ⟨2⟩ ∈ (twins.registry.graph ⟨0⟩).members := by
    decide +kernel
  have hEdge : ⟨0⟩ ∈ (twins.registry.graph ⟨0⟩).edges := by
    decide +kernel
  have hFound :
      twins.registry.resolveNode? ⟨0⟩
          (twins.registry.node ⟨1⟩).name =
        some ⟨1⟩ := by
    decide +kernel
  have hMissed :
      twins.registry.resolveNode? ⟨0⟩
          (twins.registry.node ⟨2⟩).name ≠
        some ⟨2⟩ := by
    decide +kernel
  have hAll := (member_resolves_iff (F := .plain) () {}
    "graph \x7b \x7bx\x7d y -- subgraph b \x7bx\x7d \x7d" ⟨0⟩).1
  refine ⟨hFirst, hSecond, hEdge, (hAll ⟨1⟩ hFirst).2.mp hFound, ?_⟩
  by_contra hNot
  exact hMissed ((hAll ⟨2⟩ hSecond).2.mpr hNot)

/- The name of an end of the edge stands for another node. -/
theorem head_of_twins_resolves :
    twins.outcome.isOk = true ∧
      ⟨0⟩ ∈ (twins.registry.graph ⟨0⟩).edges ∧
      (twins.registry.edge ⟨0⟩).head = ⟨2⟩ ∧
      ⟨2⟩ ∈ (twins.registry.graph ⟨0⟩).members ∧
      twins.registry.resolveNode? ⟨0⟩
          (twins.registry.node ⟨2⟩).name =
        some ⟨0⟩ := by
  decide +kernel

end Registry

end DotLang
