import BlockMarkup.Proofs.Lint.Pooled
import BlockMarkup.Proofs.Lint.Walk
import BlockMarkup.Proofs.Markup.NamedNodes

/-! # Elements judged alone

`alone` is an element as the rules would see it without any merging: its own classes and
attributes, and the classed elements around it. A node of a tree pools the elements of its chain
(`pools_of_mem_paths`), so what is reported of one of them alone is reported of the node. A Block
is above the node if any element of a shorter chain acts as one, be it around all elements of the
node or not (`blockAbove_iff`). Together this says what is reported of a node, in terms of elements
alone (`reported_merged_iff`).
-/

namespace BlockMarkup

open Markup (RootMode Node)
open Occurrences

/-! ## Blocks around elements -/

namespace Conventions

/-- Some element above the end of a chain acts as a Block. -/
def BlockOver (c : Conventions) (n : Node) (chain : List String) : Prop :=
  ∃ r ∈ n.routes, r.Reached 0 ∧ (r.chain <+: chain ∧ r.chain ≠ chain) ∧
    c.actsAsBlock (c.ownComponent r.here) = true

instance (c : Conventions) (n : Node) (chain : List String) : Decidable (c.BlockOver n chain) :=
  inferInstanceAs (Decidable (∃ r ∈ n.routes, r.Reached 0 ∧ (r.chain <+: chain ∧ r.chain ≠ chain) ∧
    c.actsAsBlock (c.ownComponent r.here) = true))

end Conventions

/-- Some classed element around an element acts as a Block. -/
def Route.InsideBlock (c : Conventions) (r : Route) : Prop :=
  ∃ e ∈ r.around, e.classTokens ≠ [] ∧ c.actsAsBlock (c.ownComponent e) = true

instance (c : Conventions) (r : Route) : Decidable (r.InsideBlock c) :=
  inferInstanceAs (Decidable (∃ e ∈ r.around,
    e.classTokens ≠ [] ∧ c.actsAsBlock (c.ownComponent e) = true))

namespace Lint

variable {c : Conventions} {n : Node} {t : Component}

/-! ## Elements and nodes -/

/-- An element as the rules would see it if nothing were merged. -/
def alone (c : Conventions) (mode : RootMode) (r : Route) : NodeContext :=
  contextAt c mode r.chain.dropLast (decide (r.InsideBlock c)) (c.ownComponent r.here)

/-- A node of a tree as the rules see it. -/
def merged (c : Conventions) (mode : RootMode) (t : Component) (p : List String × Component) :
    NodeContext :=
  contextAt c mode p.1.dropLast (decide (c.BlockAbove t p.1)) p.2

/-- A node of a tree pools the elements of its chain. -/
theorem pools_of_mem_paths (mode : RootMode) (hn : n.Named) (hbuild : c.build 0 n = some t)
    {p : List String × Component} (hp : p ∈ t.paths) :
    Pools (fun x => ∃ r ∈ n.routes, (r.Reached 0 ∧ r.chain = p.1) ∧ alone c mode r = x)
      (merged c mode t p) := by
  rcases Conventions.gathers_of_build (c.unites_descriptive AttributeSelector.telling_wellNamed) 0
    n t hbuild with ⟨os, hos, ht⟩
  have hnode := ht.insideAll_of_mem_paths hp
  rw [← hos] at hnode
  -- what is said of the own elements of the node is said of the ways to them
  have hways : ∀ P : Node → Prop, (∃ e ∈ here (insideAll p.1 (occurrences 0 n.routes)), P e) ↔
      ∃ r ∈ n.routes, (r.Reached 0 ∧ r.chain = p.1) ∧ P r.here := by
    intro P
    rw [Conventions.exists_mem_here_insideAll]
    simp only [List.mem_filter, decide_eq_true_eq, and_assoc]
  have hunites := hnode.fit fun e he => by
    rcases (hways (· = e)).mp ⟨e, he, rfl⟩ with ⟨r, hr, _, rfl⟩
    exact hn r hr
  have hlast := ((Conventions.treeCoherent_of_build 0 n t hbuild).of_mem_paths p hp).1
  constructor
  · rcases List.exists_mem_of_ne_nil _ hnode.own with ⟨e, he⟩
    rcases (hways (fun _ => True)).mp ⟨e, he, trivial⟩ with ⟨r, hr, hchain, _⟩
    exact ⟨_, r, hr, hchain, rfl⟩
  · rintro _ ⟨r, hr, ⟨hreached, hchain⟩, rfl⟩
    have hbase : p.2.base = r.base := by
      rcases Route.chain_eq hreached.1 with ⟨init, hinit⟩
      rw [← hchain, hinit, List.getLast?_concat] at hlast
      exact (Option.some.inj hlast).symm
    exact ⟨rfl, rfl, hbase, by rw [alone, hchain]; rfl, by rw [alone, hchain]; rfl⟩
  · intro m
    exact (hunites.modifiers m).trans ((hways _).trans (by simp [alone, contextAt, and_assoc]))
  · intro a
    exact (hunites.variants a).trans ((hways _).trans (by simp [alone, contextAt, and_assoc]))
  · intro a
    exact (hunites.states a).trans ((hways _).trans (by simp [alone, contextAt, and_assoc]))

/-- A condition that is pooled is met by a node just if an element of its chain meets it alone. -/
theorem Pooled.merged_iff {Q : NodeContext → Prop} (hQ : Pooled Q) (mode : RootMode)
    (hn : n.Named) (hbuild : c.build 0 n = some t) {p : List String × Component} (hp : p ∈ t.paths) :
    Q (merged c mode t p) ↔
      ∃ r ∈ n.routes, (r.Reached 0 ∧ r.chain = p.1) ∧ Q (alone c mode r) := by
  rw [hQ _ _ (pools_of_mem_paths mode hn hbuild hp)]
  constructor
  · rintro ⟨_, ⟨r, hr, hchain, rfl⟩, hq⟩
    exact ⟨r, hr, hchain, hq⟩
  · rintro ⟨r, hr, hchain, hq⟩
    exact ⟨_, ⟨r, hr, hchain, rfl⟩, hq⟩

/-- A node acts as a Block just if an element of its chain does. -/
theorem actsAsBlock_iff (hn : n.Named) (hbuild : c.build 0 n = some t)
    {p : List String × Component} (hp : p ∈ t.paths) :
    c.actsAsBlock p.2 = true ↔ ∃ r ∈ n.routes, (r.Reached 0 ∧ r.chain = p.1) ∧
      c.actsAsBlock (c.ownComponent r.here) = true :=
  pooled_actsAsBlock.merged_iff .root hn hbuild hp

/-- Blocks are above a node just if one of the elements of some shorter chain acts as one. -/
theorem blockAbove_iff (hn : n.Named) (hbuild : c.build 0 n = some t) {chain : List String} :
    c.BlockAbove t chain ↔ c.BlockOver n chain := by
  constructor
  · rintro ⟨q, hq, hshorter, hacts⟩
    rcases (actsAsBlock_iff hn hbuild hq).mp hacts with ⟨r, hr, ⟨hreached, hchain⟩, hacts⟩
    exact ⟨r, hr, hreached, hchain ▸ hshorter, hacts⟩
  · rintro ⟨r, hr, hreached, hshorter, hacts⟩
    rcases List.mem_map.mp ((Conventions.mem_chains_iff hbuild).mpr ⟨r, hr, hreached, rfl⟩) with
      ⟨q, hq, hchain⟩
    exact ⟨q, hq, hchain ▸ hshorter,
      (actsAsBlock_iff hn hbuild hq).mpr ⟨r, hr, ⟨hreached, hchain.symm⟩, hacts⟩⟩

/-- What acts as a Block around an element is above the end of its chain. -/
theorem blockOver_of_insideBlock {r : Route} (hr : r ∈ n.routes) (hreached : r.Reached 0)
    (h : r.InsideBlock c) : c.BlockOver n r.chain := by
  rcases h with ⟨e, he, htokens, hacts⟩
  rcases List.append_of_mem he with ⟨before, after, haround⟩
  exact ⟨⟨before, e⟩, Node.mem_routes_of_around n r hr haround, hreached.of_around haround htokens,
    Route.chain_before haround hreached.1, hacts⟩

/-- What is reported of a node, in terms of its elements alone: what is reported of any of them, but
an Element outside of Blocks only if no element of a chain on the way acts as a Block. -/
theorem reported_merged_iff {mode : RootMode} (hn : n.Named) (hbuild : c.build 0 n = some t)
    {p : List String × Component} (hp : p ∈ t.paths) {code : IssueCode} :
    Reported (merged c mode t p) code ↔
      (∃ r ∈ n.routes, (r.Reached 0 ∧ r.chain = p.1) ∧ Reported (alone c mode r) code) ∧
        (code = .elementWithoutBlockAncestor → ¬ c.BlockOver n p.1) := by
  by_cases hcode : code = .elementWithoutBlockAncestor
  · subst hcode
    have hkind : Settled fun x => x.baseKind = .own .element :=
      fun x y h => by simp only [h.baseKind]
    have hinside : (merged c mode t p).insideBlock = false ↔ ¬ c.BlockOver n p.1 := by
      rw [← blockAbove_iff hn hbuild]
      exact decide_eq_false_iff_not
    simp only [reported_elementWithoutBlockAncestor, hinside, hkind.pooled.merged_iff mode hn hbuild hp,
      true_implies]
    refine and_congr_left fun hover => ?_
    -- without a Block over the chain, none is around the elements of the chain
    have halone : ∀ r ∈ n.routes, r.Reached 0 ∧ r.chain = p.1 →
        (alone c mode r).insideBlock = false := by
      rintro r hr ⟨hreached, hchain⟩
      exact decide_eq_false fun h => hover (hchain ▸ blockOver_of_insideBlock hr hreached h)
    constructor
    · rintro ⟨r, hr, hchain, hkind⟩
      exact ⟨r, hr, hchain, hkind, halone r hr hchain⟩
    · rintro ⟨r, hr, hchain, hkind, _⟩
      exact ⟨r, hr, hchain, hkind⟩
  · simp only [(pooled_reported hcode).merged_iff mode hn hbuild hp, hcode, false_implies, and_true]

end Lint

end BlockMarkup
