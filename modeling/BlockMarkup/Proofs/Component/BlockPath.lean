import BlockMarkup.Proofs.Component.PathTrie

/-! # Blocks that only Blocks lead to

The files of a tree are found by going from Block to Block. `blockPaths` are the nodes met that
way; in a tree that is built, they are the nodes on whose way every class is a Block
(`Conventions.blockPaths_eq`). Which ways there are is settled by the document
(`Conventions.mem_chains_iff`).
-/

namespace BlockMarkup

open Markup (Node)
open Component (base)

namespace Component

mutual

/-- A node and the Blocks that are reached from it through Blocks alone, each with the classes on
the way to it. -/
def blockPaths : Component → List (List String × Component)
  | .mk b i m v s n independents o t r d =>
    ([b], .mk b i m v s n independents o t r d) ::
      (blockPathsIn independents).map fun p => (b :: p.1, p.2)

/-- The nodes that are reached from several nodes. -/
def blockPathsIn : List Component → List (List String × Component)
  | [] => []
  | x :: rest => blockPaths x ++ blockPathsIn rest

end

theorem blockPaths_def (x : Component) :
    x.blockPaths =
      ([x.base], x) :: (blockPathsIn x.independents).map fun p => (x.base :: p.1, p.2) := by
  cases x
  rw [blockPaths]
  rfl

theorem mem_blockPathsIn {xs : List Component} {p : List String × Component} :
    p ∈ blockPathsIn xs ↔ ∃ x ∈ xs, p ∈ x.blockPaths := by
  induction xs with
  | nil => simp [blockPathsIn]
  | cons x rest ih => simp [blockPathsIn, ih]

end Component

namespace Conventions

variable {c : Conventions}

/-- Every class on the way is a Block. -/
def AllBlocks (c : Conventions) (chain : List String) : Prop :=
  ∀ b ∈ chain, c.isIndependent b = true

instance (c : Conventions) (chain : List String) : Decidable (c.AllBlocks chain) :=
  inferInstanceAs (Decidable (∀ b ∈ chain, c.isIndependent b = true))

theorem allBlocks_cons {b : String} {chain : List String} :
    c.AllBlocks (b :: chain) ↔ c.isIndependent b = true ∧ c.AllBlocks chain := by
  simp [AllBlocks]

/-- What is reached through Blocks alone are the nodes on whose way every class is a Block. -/
theorem blockPaths_eq {t : Component} (ht : c.TreeCoherent t) :
    t.independent = true → t.blockPaths = t.paths.filter fun p => c.AllBlocks p.1 := by
  refine ht.induction ?_
  clear ht t
  intro t ht ih hblock
  have hbase : c.isIndependent t.base = true := ht.root.kind ▸ hblock
  -- a child that is no Block leads to nothing
  have hchildren : ∀ ys : List Component, (∀ y ∈ ys, y ∈ t.ordered) →
      Component.blockPathsIn (ys.filter (·.independent)) =
        (Component.pathsIn ys).filter fun p => c.AllBlocks p.1 := by
    intro ys hys
    induction ys with
    | nil => rfl
    | cons y rest ihys =>
      rw [List.forall_mem_cons] at hys
      have hkind := (ht.child hys.1).root.kind
      rw [Component.pathsIn, List.filter_append, ← ihys hys.2]
      cases hi : y.independent with
      | true =>
        rw [List.filter_cons_of_pos (by simpa using hi), Component.blockPathsIn,
          ih y hys.1 hi]
      | false =>
        -- every way through `y` begins with its class, which is no Block
        have hnone : (y.paths.filter fun p => c.AllBlocks p.1) = [] := by
          rw [List.filter_eq_nil_iff]
          intro p hp hall
          have := of_decide_eq_true hall y.base (Component.base_mem_of_mem_paths hp)
          simp [← hkind, hi] at this
        rw [List.filter_cons_of_neg (by simp [hi]), hnone, List.nil_append]
  rw [Component.blockPaths_def, Component.paths_eq, ht.root.independents_eq,
    hchildren t.ordered (fun _ h => h), List.filter_cons_of_pos, List.filter_map]
  · congr 2
    exact List.filter_congr fun p _ => by simp [allBlocks_cons, hbase]
  · simp [AllBlocks, hbase]

theorem blockPathsIn_eq {xs : List Component} (hxs : ∀ x ∈ xs, c.TreeCoherent x)
    (hblocks : ∀ x ∈ xs, x.independent = true) :
    Component.blockPathsIn xs = (Component.pathsIn xs).filter fun p => c.AllBlocks p.1 := by
  induction xs with
  | nil => rfl
  | cons x rest ih =>
    rw [List.forall_mem_cons] at hxs hblocks
    rw [Component.blockPathsIn, Component.pathsIn, List.filter_append,
      blockPaths_eq hxs.1 hblocks.1, ih hxs.2 hblocks.2]

theorem mem_blockPathsIn_chains {xs : List Component} (hxs : ∀ x ∈ xs, c.TreeCoherent x)
    (hblocks : ∀ x ∈ xs, x.independent = true) {chain : List String} :
    chain ∈ (Component.blockPathsIn xs).map Prod.fst ↔
      c.AllBlocks chain ∧ ∃ x ∈ xs, chain ∈ x.paths.map Prod.fst := by
  rw [blockPathsIn_eq hxs hblocks]
  constructor
  · intro h
    rcases List.mem_map.mp h with ⟨p, hp, rfl⟩
    rcases List.mem_filter.mp hp with ⟨hp, hall⟩
    rcases Component.mem_pathsIn.mp hp with ⟨x, hx, hp⟩
    exact ⟨of_decide_eq_true hall, x, hx, List.mem_map_of_mem hp⟩
  · rintro ⟨hall, x, hx, hchain⟩
    rcases List.mem_map.mp hchain with ⟨p, hp, rfl⟩
    have hmem := Component.mem_pathsIn.mpr ⟨x, hx, hp⟩
    exact List.mem_map_of_mem (List.mem_filter.mpr ⟨hmem, decide_eq_true hall⟩)

theorem blockPathsIn_chains_nodup {xs : List Component} (hxs : ∀ x ∈ xs, c.TreeCoherent x)
    (hblocks : ∀ x ∈ xs, x.independent = true) (hbases : (xs.map base).Nodup) :
    ((Component.blockPathsIn xs).map Prod.fst).Nodup := by
  rw [blockPathsIn_eq hxs hblocks]
  have hall := Component.pathsIn_nodup hbases fun x hx => (hxs x hx).paths_nodup
  exact hall.sublist (List.filter_sublist.map Prod.fst)

/-- Nodes need not be described for their chains to be known. -/
theorem descriptive_true (c : Conventions) : c.Descriptive fun _ _ => True :=
  ⟨fun _ _ _ _ _ _ _ => trivial, fun _ _ _ _ _ _ _ => trivial, fun _ _ _ => trivial,
    fun _ _ _ _ => trivial⟩

/-- The ways through a tree are the chains of the elements above the depth limit. -/
theorem mem_chains_iff {n : Node} {t : Component} (ht : c.build 0 n = some t)
    {chain : List String} :
    chain ∈ t.paths.map Prod.fst ↔ ∃ r ∈ n.routes, r.Reached 0 ∧ r.chain = chain := by
  rcases gathers_of_build (descriptive_true c) 0 n t ht with ⟨os, hos, hgathers⟩
  rw [hgathers.mem_chains, ← hos]
  simp [mem_occurrences]

end Conventions

end BlockMarkup
