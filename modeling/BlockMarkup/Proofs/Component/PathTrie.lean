import BlockMarkup.Proofs.Component.Gathers

/-! # A tree is the path trie of its document

What building makes of a document: one node for every chain of first classes above the depth
limit, with the modifiers and the marked attributes of all elements of that chain, children in
the order in which the document first has them (`Conventions.IsPathTrie`).

That nodes stand for what was found below them is shown along the three functions that build
(`gathers_of_build`, `gathersAll_of_below`, `gathersAll_of_found`), for any description of nodes
that fresh nodes meet and that merging and marking keep (`Descriptive`).
-/

namespace BlockMarkup

open Markup (Node)
open Component (base)
open Occurrences

/-- Nodes keep what is said about them: it holds when they are made, merged or marked. -/
structure Conventions.Descriptive (c : Conventions) (fits : List Node → Component → Prop) :
    Prop where
  fresh : ∀ name attributes children b modifiers found,
    (Node.element name attributes children).classTokens = b :: modifiers →
    fits [.element name attributes children] (c.component name attributes b modifiers found)
  merge : Gathers.Additive fits
  markDeep : ∀ es x, fits es x → fits es x.markDeep
  withRoot : ∀ isRoot es x, fits es x → fits es (x.withRoot isRoot)

namespace Gathers

variable {fits : List Node → Component → Prop} {os : Occurrences} {x : Component}
variable {c : Conventions}

/-- A node with the same children stands for the same occurrences. -/
theorem remark {y : Component} (h : Gathers fits os x) (hordered : y.ordered = x.ordered)
    (hfit : fits (here os) y) : Gathers fits os y := by
  cases h with
  | mk own fit closed bases children =>
    exact .mk own hfit closed (hordered ▸ bases) (hordered ▸ children)

theorem markDeep (hfits : c.Descriptive fits) (h : Gathers fits os x) :
    Gathers fits os x.markDeep := by
  have hordered : x.markDeep.ordered = x.ordered := by cases x; rfl
  exact h.remark hordered (hfits.markDeep _ _ h.fit)

theorem withRoot (hfits : c.Descriptive fits) (isRoot : Bool) (h : Gathers fits os x) :
    Gathers fits os (x.withRoot isRoot) := by
  have hordered : (x.withRoot isRoot).ordered = x.ordered := by cases x; rfl
  exact h.remark hordered (hfits.withRoot isRoot _ _ h.fit)

end Gathers

namespace Conventions

variable {fits : List Node → Component → Prop} {c : Conventions}

/-- The node for an element stands for the element and all that was found below it. -/
theorem gathers_component (hfits : c.Descriptive fits) {name : String}
    {attributes : Markup.Attributes} {children : List Node} {b : String} {modifiers : List String}
    {os : Occurrences} {found : List Component}
    (htokens : (Node.element name attributes children).classTokens = b :: modifiers)
    (hfound : GathersAll fits os found) (hcoherent : ∀ t ∈ found, c.TreeCoherent t) :
    Gathers fits (([], .element name attributes children) :: os)
      (c.component name attributes b modifiers found) := by
  have hhere : here (([], Node.element name attributes children) :: os) =
      [.element name attributes children] := by
    have h := hfound.here_eq_nil
    simp only [here] at h ⊢
    simp [h]
  have hheads : heads (([], Node.element name attributes children) :: os) = heads os := rfl
  have hinside : ∀ b', inside b' (([], Node.element name attributes children) :: os) =
      inside b' os := fun _ => rfl
  refine .mk (by simp [hhere]) ?_ ?_ ?_ ?_
  · rw [hhere]
    exact hfits.fresh _ _ _ _ _ _ htokens
  · intro b' rest e hmem
    rcases List.mem_cons.mp hmem with h | hmem
    · cases h
    · exact hheads ▸ hfound.closed b' rest e hmem
  · rw [hheads, hfound.unique_heads]
    exact Component.dedup_bases found
  · intro y hy
    rw [hinside]
    exact hfound.dedup hfits.merge hcoherent y hy

/-- The occurrences in an element: itself if it has a class, and those in its content. -/
theorem occurrences_element (depth : Nat) (name : String) (attributes : Markup.Attributes)
    (children : List Node) {n : Node} (hn : n = .element name attributes children) :
    occurrences depth n.routes =
      (if n.classTokens ≠ [] ∧ depth < maxDepth then [(n.classTokens.head?.toList, n)] else []) ++
        (occurrences (depth + 1) (Node.routesIn children)).map fun p =>
          (n.classTokens.head?.toList ++ p.1, p.2) := by
  have hroutes : n.routes = ⟨[], n⟩ :: (Node.routesIn children).map (Route.under n) := by
    rw [hn, Node.routes]
  rw [hroutes, occurrences_cons, occurrences_under, Route.chain_self]
  by_cases h : n.classTokens ≠ [] ∧ depth < maxDepth
  · rw [if_pos h, if_pos (Route.reached_self.mpr h)]
    rfl
  · rw [if_neg h, if_neg (fun hr => h (Route.reached_self.mp hr))]
    rfl

mutual

theorem gathers_of_build (hfits : c.Descriptive fits) (depth : Nat) :
    ∀ n : Node, ∀ t, c.build depth n = some t →
      ∃ os, occurrences depth n.routes = prefixed t.base os ∧ Gathers fits os t
  | .leaf .. => by
    intro t h
    simp [build] at h
  | .element name attributes children => by
    intro t h
    obtain ⟨hdepth, b, modifiers, htokens, rfl⟩ := build_element_eq_some_iff.mp h
    have hwords : (Node.element name attributes children).classTokens = b :: modifiers := htokens
    refine ⟨_, ?_, gathers_component hfits hwords
      (gathersAll_of_found hfits (depth + 1) false children)
      (treeCoherent_of_found (depth + 1) false children)⟩
    rw [occurrences_element depth name attributes children rfl, if_pos ⟨by simp [hwords], hdepth⟩,
      hwords]
    rfl

theorem gathersAll_of_below (hfits : c.Descriptive fits) (depth : Nat) :
    ∀ n : Node, c.build depth n = none →
      GathersAll fits (occurrences depth n.routes) (c.below depth n)
  | .leaf .. => by
    intro _
    exact .nil
  | .element name attributes children => by
    intro h
    rw [below]
    split
    · rename_i hdepth
      rw [occurrences_of_maxDepth_le hdepth]
      exact .nil
    · -- an element without a class, whose content counts as content of the node above
      rename_i hdepth
      rw [build, if_neg hdepth] at h
      split at h
      · rename_i htokens
        have hwords : (Node.element name attributes children).classTokens = [] := htokens
        rw [occurrences_element depth name attributes children rfl,
          if_neg (by simp [hwords]), hwords]
        simpa using gathersAll_of_found hfits (depth + 1) true children
      · cases h

theorem gathersAll_of_found (hfits : c.Descriptive fits) (depth : Nat) (deep : Bool) :
    ∀ ns : List Node, GathersAll fits (occurrences depth (Node.routesIn ns)) (c.found depth deep ns)
  | [] => .nil
  | n :: rest => by
    rw [found, Node.routesIn, occurrences_append]
    refine .append ?_ (gathersAll_of_found hfits depth deep rest)
    split
    · rename_i x hx
      rcases gathers_of_build hfits depth n x hx with ⟨os, hos, hx⟩
      rw [hos]
      cases deep with
      | false => exact .singleton hx
      | true =>
        have hbase : x.base = x.markDeep.base := by cases x; rfl
        rw [hbase]
        exact .singleton (hx.markDeep hfits)
    · rename_i hnone
      exact gathersAll_of_below hfits depth n hnone

end

end Conventions

/-! ## What nodes carry -/

/-- No attribute of the element has an equals sign in its name. -/
def Markup.Node.PlainNames (e : Node) : Prop :=
  ∀ q ∈ e.attributes, '=' ∉ q.1.toList

instance (e : Node) : Decidable e.PlainNames :=
  inferInstanceAs (Decidable (∀ q ∈ e.attributes, '=' ∉ q.1.toList))

/-- The element has an attribute that a test reserves, and `a` is its selector. -/
def Markup.Node.Marks (reserved : String → Bool) (e : Node) (a : AttributeSelector) : Prop :=
  ∃ q ∈ e.attributes, q.1 ∉ Conventions.skippedAttributes ∧ reserved q.1 ∧
    a = ⟨q.1, Text.trimmed q.2⟩

namespace AttributeSelector

/-- The text before the first equals sign. -/
theorem takeWhile_before {s t : List Char} (h : '=' ∉ s) :
    (s ++ '=' :: t).takeWhile (· ≠ '=') = s := by
  have hall : ∀ ch ∈ s, decide (ch ≠ '=') = true :=
    fun ch hch => decide_eq_true fun he => h (he ▸ hch)
  rw [List.takeWhile_append_of_pos hall]
  simp

/-- Among attributes with such names, identities tell one from another. -/
def Telling (good : String → Prop) : Prop :=
  ∀ a b : AttributeSelector, good a.key → good b.key → a.identity = b.identity → a = b

theorem telling_plain : Telling fun name => '=' ∉ name.toList := by
  intro a b ha hb h
  have hlist : a.key.toList ++ '=' :: a.value.toList = b.key.toList ++ '=' :: b.value.toList := by
    have := congrArg String.toList h
    simpa [identity] using this
  have hkey : a.key = b.key := by
    apply String.toList_injective
    rw [← takeWhile_before (t := a.value.toList) ha, hlist, takeWhile_before hb]
  have hvalue : a.value = b.value := by
    rw [identity, identity, hkey] at h
    simpa using h
  cases a
  cases b
  exact congrArg₂ AttributeSelector.mk hkey hvalue

variable {good : String → Prop}

theorem mem_dedup (hgood : Telling good) {as : List AttributeSelector}
    (h : ∀ a ∈ as, good a.key) {a : AttributeSelector} : a ∈ dedup as ↔ a ∈ as :=
  mem_uniqueBy_of_injOn identity fun x hx y hy he => hgood x y (h x hx) (h y hy) he

/-- Merging two lists of selectors loses nothing that elements with such names have. -/
theorem mem_dedup_append (hgood : Telling good) {own : Node → List AttributeSelector}
    {es es' : List Node} {as bs : List AttributeSelector}
    (hnames : ∀ e ∈ es ++ es', ∀ a ∈ own e, good a.key)
    (has : ∀ a, a ∈ as ↔ ∃ e ∈ es, a ∈ own e) (hbs : ∀ a, a ∈ bs ↔ ∃ e ∈ es', a ∈ own e)
    (a : AttributeSelector) : a ∈ dedup (as ++ bs) ↔ ∃ e ∈ es ++ es', a ∈ own e := by
  have hunion : ∀ a, a ∈ as ++ bs ↔ ∃ e ∈ es ++ es', a ∈ own e := by
    intro a
    simp only [List.mem_append, has a, hbs a, or_and_right, exists_or]
  rw [mem_dedup hgood, hunion]
  intro b hb
  rcases (hunion b).mp hb with ⟨e, he, hmem⟩
  exact hnames e he b hmem

end AttributeSelector

namespace Conventions

variable {c : Conventions}

theorem mem_selectorsOf {reserved : String → Bool} {n : Node} (hnames : n.PlainNames)
    {a : AttributeSelector} : a ∈ selectorsOf reserved n.attributes ↔ n.Marks reserved a := by
  have hmem : ∀ b, b ∈ ((n.attributes.filter fun q =>
      !skippedAttributes.contains q.1 && reserved q.1).map fun q =>
        (⟨q.1, Text.trimmed q.2⟩ : AttributeSelector)) ↔ n.Marks reserved b := by
    intro b
    simp only [List.mem_map, List.mem_filter, Bool.and_eq_true, Bool.not_eq_true',
      ← Bool.not_eq_true, List.contains_iff_mem, Node.Marks, and_assoc, eq_comm (b := b)]
  rw [selectorsOf, AttributeSelector.mem_dedup AttributeSelector.telling_plain, hmem]
  intro b hb
  rcases (hmem b).mp hb with ⟨q, hq, _, _, rfl⟩
  exact hnames q hq

/-- The names of selectors are names of attributes. -/
theorem name_of_mem_selectorsOf {good : String → Prop} {reserved : String → Bool}
    {as : Markup.Attributes} (has : ∀ q ∈ as, good q.1) {a : AttributeSelector}
    (ha : a ∈ selectorsOf reserved as) : good a.key := by
  rcases List.mem_map.mp (mem_of_mem_uniqueBy _ ha) with ⟨q, hq, rfl⟩
  exact has q (List.mem_filter.mp hq).1

/-- The node for an element without anything below it. -/
def ownComponent (c : Conventions) (e : Node) : Component :=
  c.component e.name e.attributes (e.classTokens.headD "") e.classTokens.tail []

/-- The node has the other classes and the marked attributes of some elements. -/
structure Unites (c : Conventions) (es : List Node) (x : Component) : Prop where
  modifiers : ∀ m, m ∈ x.modifiers ↔ ∃ e ∈ es, m ∈ (c.ownComponent e).modifiers
  variants : ∀ a, a ∈ x.variants ↔ ∃ e ∈ es, a ∈ (c.ownComponent e).variants
  states : ∀ a, a ∈ x.states ↔ ∃ e ∈ es, a ∈ (c.ownComponent e).states

theorem Unites.merge {good : String → Prop} (hgood : AttributeSelector.Telling good)
    {es es' : List Node} {a b : Component} (ha : c.Unites es a) (hb : c.Unites es' b)
    (hnames : ∀ e ∈ es ++ es', ∀ q ∈ e.attributes, good q.1) :
    c.Unites (es ++ es') (Component.merge a b) where
  modifiers := by
    intro m
    rw [Component.merge_modifiers, mem_unique]
    simp only [List.mem_append, ha.modifiers m, hb.modifiers m, or_and_right, exists_or]
  variants := by
    rw [Component.merge_variants]
    exact AttributeSelector.mem_dedup_append hgood
      (fun e he _ => name_of_mem_selectorsOf (hnames e he)) ha.variants hb.variants
  states := by
    rw [Component.merge_states]
    exact AttributeSelector.mem_dedup_append hgood
      (fun e he _ => name_of_mem_selectorsOf (hnames e he)) ha.states hb.states

/-- What nodes have is settled when they are made, and mergers unite it. -/
theorem unites_descriptive (c : Conventions) {good : String → Prop}
    (hgood : AttributeSelector.Telling good) :
    c.Descriptive fun es x => (∀ e ∈ es, ∀ q ∈ e.attributes, good q.1) → c.Unites es x where
  fresh := by
    intro name attributes children b modifiers found htokens _
    have hown : c.ownComponent (.element name attributes children) =
        c.component name attributes b modifiers [] := by
      rw [ownComponent, htokens]
      rfl
    constructor
    · intro m
      simp [hown, component, Component.modifiers]
    · intro a
      simp [hown, component, Component.variants]
    · intro a
      simp [hown, component, Component.states]
  merge := by
    intro es es' a b _ ha hb hnames
    exact (ha fun e he => hnames e (List.mem_append_left _ he)).merge hgood
      (hb fun e he => hnames e (List.mem_append_right _ he)) hnames
  markDeep := by
    intro es x h hnames
    cases x
    exact ⟨(h hnames).modifiers, (h hnames).variants, (h hnames).states⟩
  withRoot := by
    intro isRoot es x h hnames
    cases x
    exact ⟨(h hnames).modifiers, (h hnames).variants, (h hnames).states⟩

/-- The node has exactly the modifiers and the marks of some elements. -/
structure Carries (c : Conventions) (es : List Node) (x : Component) : Prop where
  modifiers : ∀ m, m ∈ x.modifiers ↔ ∃ e ∈ es, m ∈ e.classTokens.tail
  variants : ∀ a, a ∈ x.variants ↔ ∃ e ∈ es, e.Marks c.policy.isVariantKey a
  states : ∀ a, a ∈ x.states ↔ ∃ e ∈ es, e.Marks c.policy.isStateKey a

/-- Elements with plain names have on their own what they mark. -/
theorem Unites.carries {es : List Node} {x : Component} (h : c.Unites es x)
    (hnames : ∀ e ∈ es, e.PlainNames) : c.Carries es x where
  modifiers := h.modifiers
  variants := by
    intro a
    rw [h.variants]
    exact exists_congr fun e => and_congr_right fun he => mem_selectorsOf (hnames e he)
  states := by
    intro a
    rw [h.states]
    exact exists_congr fun e => and_congr_right fun he => mem_selectorsOf (hnames e he)

/-! ## The path trie -/

/-- The tree is the path trie of the classed elements that some ways lead to. -/
structure IsPathTrie (c : Conventions) (rs : List Route) (t : Component) : Prop where
  chains : ∀ chain, chain ∈ t.paths.map Prod.fst ↔ ∃ r ∈ rs, r.chain = chain
  chains_nodup : (t.paths.map Prod.fst).Nodup
  modifiers : ∀ p ∈ t.paths, ∀ m,
    m ∈ p.2.modifiers ↔ ∃ r ∈ rs, r.chain = p.1 ∧ m ∈ r.here.classTokens.tail
  variants : ∀ p ∈ t.paths, ∀ a,
    a ∈ p.2.variants ↔ ∃ r ∈ rs, r.chain = p.1 ∧ r.here.Marks c.policy.isVariantKey a
  states : ∀ p ∈ t.paths, ∀ a,
    a ∈ p.2.states ↔ ∃ r ∈ rs, r.chain = p.1 ∧ r.here.Marks c.policy.isStateKey a
  siblings : ∀ p ∈ t.paths,
    p.2.ordered.map base = unique ((rs.filter fun r => r.chain.dropLast = p.1).map Route.base)

/-- What is said about the own elements of a node, said about the ways to them. -/
theorem exists_mem_here_insideAll {depth : Nat} {rs : List Route} {chain : List String}
    {P : Node → Prop} :
    (∃ e ∈ here (insideAll chain (occurrences depth rs)), P e) ↔
      ∃ r ∈ rs.filter (·.Reached depth), r.chain = chain ∧ P r.here := by
  constructor
  · rintro ⟨e, he, hP⟩
    rw [mem_here, mem_insideAll, List.append_nil] at he
    rcases mem_occurrences.mp he with ⟨r, hr, hreached, heq⟩
    rcases Prod.mk.inj heq with ⟨hchain, rfl⟩
    exact ⟨r, List.mem_filter.mpr ⟨hr, decide_eq_true hreached⟩, hchain, hP⟩
  · rintro ⟨r, hr, rfl, hP⟩
    rcases List.mem_filter.mp hr with ⟨hr, hreached⟩
    refine ⟨r.here, ?_, hP⟩
    rw [mem_here, mem_insideAll, List.append_nil]
    exact mem_occurrences.mpr ⟨r, hr, of_decide_eq_true hreached, rfl⟩

/-- The classes that come next after a chain, in document order. -/
theorem heads_insideAll_occurrences (depth : Nat) (rs : List Route) (chain : List String) :
    heads (insideAll chain (occurrences depth rs)) =
      ((rs.filter (·.Reached depth)).filter fun r => r.chain.dropLast = chain).map Route.base := by
  rw [heads_insideAll, occurrences, List.filterMap_map]
  have hreached : ∀ r ∈ rs.filter (·.Reached depth), r.chain.getLast? = some r.base := by
    intro r hr
    have htokens := (of_decide_eq_true (List.mem_filter.mp hr).2 : r.Reached depth).1
    rcases Route.chain_eq htokens with ⟨init, hinit⟩
    rw [hinit, List.getLast?_concat]
  generalize rs.filter (·.Reached depth) = reached at hreached ⊢
  induction reached with
  | nil => rfl
  | cons r rest ih =>
    rw [List.forall_mem_cons] at hreached
    by_cases hr : r.chain.dropLast = chain <;>
      simpa [hr, hreached.1] using ih hreached.2

/-- Building makes the path trie of the elements above the depth limit, and no chain of it is
longer than the levels that the limit leaves. -/
theorem isPathTrie_of_build {depth : Nat} {n : Node} {t : Component}
    (hbuild : c.build depth n = some t) (hnames : ∀ r ∈ n.routes, r.here.PlainNames) :
    c.IsPathTrie (n.routes.filter (·.Reached depth)) t ∧
      ∀ p ∈ t.paths, p.1.length ≤ maxDepth - depth := by
  rcases gathers_of_build (c.unites_descriptive AttributeSelector.telling_plain) depth n t hbuild
    with ⟨os, hos, ht⟩
  have hchains : ∀ chain, chain ∈ t.paths.map Prod.fst ↔
      ∃ r ∈ n.routes.filter (·.Reached depth), r.chain = chain := by
    intro chain
    rw [ht.mem_chains, ← hos]
    simp [mem_occurrences, and_assoc]
  -- every node stands for the elements of its chain
  have hnode : ∀ p ∈ t.paths, Gathers _ (insideAll p.1 (occurrences depth n.routes)) p.2 :=
    fun p hp => hos ▸ ht.insideAll_of_mem_paths hp
  have hcarries : ∀ p ∈ t.paths,
      c.Carries (here (insideAll p.1 (occurrences depth n.routes))) p.2 := by
    intro p hp
    have hplain : ∀ e ∈ here (insideAll p.1 (occurrences depth n.routes)), e.PlainNames := by
      intro e he
      obtain ⟨r, hr, _, rfl⟩ :=
        exists_mem_here_insideAll (P := fun e' => e' = e) |>.mp ⟨e, he, rfl⟩
      exact hnames r (List.mem_filter.mp hr).1
    exact ((hnode p hp).fit hplain).carries hplain
  refine ⟨⟨hchains, (treeCoherent_of_build depth n t hbuild).paths_nodup, ?_, ?_, ?_, ?_⟩, ?_⟩
  · intro p hp m
    rw [(hcarries p hp).modifiers, exists_mem_here_insideAll]
  · intro p hp a
    rw [(hcarries p hp).variants, exists_mem_here_insideAll]
  · intro p hp a
    rw [(hcarries p hp).states, exists_mem_here_insideAll]
  · intro p hp
    rw [(hnode p hp).bases, heads_insideAll_occurrences]
  · intro p hp
    rcases (hchains p.1).mp (List.mem_map_of_mem hp) with ⟨r, hr, hchain⟩
    rw [← hchain]
    exact Route.Reached.length_chain_le (of_decide_eq_true (List.mem_filter.mp hr).2)

/-- A banner so deep that the innermost of its three Elements is beyond the limit; the other two
are of one class. -/
theorem isPathTrie_at_limit :
    let banner : Node := .element "div" [("class", "hero-banner")] [
      .element "p" [("class", "desc -a"), ("data-variant", "en")] [],
      .element "div" [] [
        .element "p" [("class", "desc -b")] [.element "span" [("class", "note")] []]]]
    ∃ t, ({} : Conventions).build 253 banner = some t ∧
      t.paths.map Prod.fst = [["hero-banner"], ["hero-banner", "desc"]] ∧
      ({} : Conventions).IsPathTrie (banner.routes.filter (·.Reached 253)) t := by
  intro banner
  have hpaths : (({} : Conventions).build 253 banner).map (·.paths.map Prod.fst) =
      some [["hero-banner"], ["hero-banner", "desc"]] := by decide +kernel
  rcases Option.map_eq_some_iff.mp hpaths with ⟨t, ht, hpaths⟩
  exact ⟨t, ht, hpaths, (isPathTrie_of_build ht (by decide +kernel)).1⟩

end Conventions

end BlockMarkup
