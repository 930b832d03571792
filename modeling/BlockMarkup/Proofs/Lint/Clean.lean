import BlockMarkup.Lint.Run
import BlockMarkup.Proofs.Component.BlockPath
import BlockMarkup.Proofs.Result

/-! # Trees without issues

What the absence of issues says about a tree. The walk of the linter reaches every node, so every
rule is silent at every node; of what the rules ask for, `ChainClean` keeps the part that
concerns the first classes on the way to a node. In a tree without issues, a Block that is
reached without a third-party class is reached through Blocks alone
(`ChainClean.allBlocks`).
-/

namespace BlockMarkup

open Markup (RootMode Document Node)
open Component (base)

namespace Lint

variable {c : Conventions} {mode : RootMode}

/-! ## The walk -/

/-- A node without issues is one at which every rule is silent. -/
theorem rule_silent {x : NodeContext} {path : List String} (h : nodeIssues x path = .ok [])
    {r : Rule} (hr : r ∈ Rule.all) : r.check x = .ok [] := by
  rcases map_eq_ok.mp h with ⟨found, hfound, hnil⟩
  rcases exists_of_mapM_eq_ok hfound r hr with ⟨fs, hfs, hcheck⟩
  rw [List.map_eq_nil_iff, List.flatten_eq_nil_iff] at hnil
  rw [hcheck, hnil fs hfs]

/-- What a rule sees of a node on the walk. -/
def contextAt (c : Conventions) (mode : RootMode) (above : List String) (insideBlock : Bool)
    (t : Component) : NodeContext :=
  { conventions := c, mode := mode, component := t, parentBase := above.getLast?
    insideBlock := insideBlock, atRoot := above.isEmpty }

/-- A tree has no issues just if its root and the trees below have none. -/
theorem treeIssues_eq_nil {above : List String} {insideBlock : Bool} {t : Component}
    (h : treeIssues c mode above insideBlock t = .ok []) :
    nodeIssues (contextAt c mode above insideBlock t) (above ++ [t.base]) = .ok [] ∧
      ∃ inside, treesIssues c mode (above ++ [t.base]) inside t.nested = .ok [] ∧
        treesIssues c mode (above ++ [t.base]) inside t.independents = .ok [] := by
  cases t with
  | mk b i m v s nested independents o tag r d =>
    rw [treeIssues] at h
    rcases bind_eq_ok.mp h with ⟨here, hhere, h⟩
    rcases bind_eq_ok.mp h with ⟨elements, helements, h⟩
    rcases bind_eq_ok.mp h with ⟨blocks, hblocks, h⟩
    have hnil : here ++ elements ++ blocks = [] := Except.ok.inj h
    rw [List.append_eq_nil_iff, List.append_eq_nil_iff] at hnil
    rcases hnil with ⟨⟨rfl, rfl⟩, rfl⟩
    exact ⟨hhere, _, helements, hblocks⟩

theorem treesIssues_eq_nil {above : List String} {insideBlock : Bool} {ts : List Component}
    (h : treesIssues c mode above insideBlock ts = .ok []) :
    ∀ t ∈ ts, treeIssues c mode above insideBlock t = .ok [] := by
  induction ts with
  | nil => simp
  | cons t rest ih =>
    rw [treesIssues, bind_eq_ok] at h
    rcases h with ⟨first, hfirst, h⟩
    rcases bind_eq_ok.mp h with ⟨others, hothers, h⟩
    have hnil : first ++ others = [] := Except.ok.inj h
    rcases List.append_eq_nil_iff.mp hnil with ⟨rfl, rfl⟩
    rw [List.forall_mem_cons]
    exact ⟨hfirst, ih hothers⟩

/-! ## Chains -/

/-- The kind of a first class. -/
def kindOf (c : Conventions) (b : String) : ClassKind := c.naming.classifyWith c.external b

/-- Below a class, the classes are neither invalid nor Blocks directly under Elements. -/
def ChainClean (c : Conventions) : Option String → List String → Prop
  | _, [] => True
  | parent, b :: rest =>
    kindOf c b ≠ .own .invalid ∧
      (∀ p, parent = some p → kindOf c p = .own .element → kindOf c b ≠ .own .block) ∧
      ChainClean c (some b) rest

theorem kindOf_eq_block {b : String} : kindOf c b = .own .block ↔ c.isIndependent b = true := by
  rw [kindOf, NamingOptions.classifyWith, Conventions.isIndependent, Bool.and_eq_true,
    Bool.not_eq_true']
  by_cases hext : c.external.covers b
  · simp [hext]
  · by_cases hblock : c.naming.isBlock b
    · simp [hext, hblock, NamingOptions.classify_eq]
    · by_cases helement : c.naming.isElement b <;>
        simp [hext, hblock, helement, NamingOptions.classify_eq]

theorem kindOf_eq_external {b : String} :
    kindOf c b = .external ↔ c.external.covers b = true := by
  rw [kindOf, NamingOptions.classifyWith]
  split <;> simp_all

/-- At a node without issues the class is valid and no Block stands directly under an Element. -/
theorem kind_of_silent {above : List String} {insideBlock : Bool} {t : Component}
    {path : List String} (h : nodeIssues (contextAt c mode above insideBlock t) path = .ok []) :
    kindOf c t.base ≠ .own .invalid ∧
      ∀ p, above.getLast? = some p → kindOf c p = .own .element →
        kindOf c t.base ≠ .own .block := by
  constructor
  · intro hinvalid
    have hsilent := rule_silent h (r := Rule.plain "check_invalid_base" [.invalidBaseClass]
      Rule.invalidBase) (by simp [Rule.all, RuleSet.all, Rule.baseClassRules])
    have hnil : Rule.invalidBase (contextAt c mode above insideBlock t) = [] :=
      Except.ok.inj hsilent
    have hkind : (contextAt c mode above insideBlock t).baseKind = .own .invalid := hinvalid
    rw [Rule.invalidBase, if_pos hkind] at hnil
    cases hnil
  · intro p hp helement hblock
    have hsilent := rule_silent h (r := Rule.plain "check_block_parent" [.elementParentOfBlock]
      Rule.blockParent) (by simp [Rule.all, RuleSet.all, Rule.hierarchyRules])
    have hnil : Rule.blockParent (contextAt c mode above insideBlock t) = [] :=
      Except.ok.inj hsilent
    have hparent : (contextAt c mode above insideBlock t).parentBase = some p := hp
    have hkinds : ((contextAt c mode above insideBlock t).baseKind == .own .block &&
        (contextAt c mode above insideBlock t).naming.classifyWith
          (contextAt c mode above insideBlock t).external p == .own .element) = true := by
      rw [Bool.and_eq_true, beq_iff_eq, beq_iff_eq]
      exact ⟨hblock, helement⟩
    rw [Rule.blockParent, hparent] at hnil
    simp only [hkinds, if_true] at hnil
    cases hnil

/-- Every way through a tree without issues is clean. -/
theorem chainClean_of_treeIssues {t : Component} (ht : c.TreeCoherent t) :
    ∀ above insideBlock, treeIssues c mode above insideBlock t = .ok [] →
      ∀ p ∈ t.paths, ChainClean c above.getLast? p.1 := by
  refine ht.induction ?_
  clear ht t
  intro t ht ih above insideBlock h p hp
  rcases treeIssues_eq_nil h with ⟨hnode, inside, hnested, hindependents⟩
  rcases kind_of_silent hnode with ⟨hvalid, hparent⟩
  rcases Component.mem_paths.mp hp with rfl | ⟨y, hy, q, hq, rfl⟩
  · exact ⟨hvalid, hparent, trivial⟩
  · -- the child is walked among the Elements or among the Blocks
    have hissues : treeIssues c mode (above ++ [t.base]) inside y = .ok [] := by
      cases hi : y.independent with
      | false =>
        refine treesIssues_eq_nil hnested y ?_
        rw [ht.root.nested_eq]
        simp [hy, hi]
      | true =>
        refine treesIssues_eq_nil hindependents y ?_
        rw [ht.root.independents_eq]
        simp [hy, hi]
    have hbelow := ih y hy (above ++ [t.base]) inside hissues q hq
    rw [List.getLast?_concat] at hbelow
    exact ⟨hvalid, hparent, hbelow⟩

/-- Below an Element there are only Elements, as far as no third-party class stands between. -/
theorem ChainClean.elements {b : String} {chain : List String} (h : ChainClean c (some b) chain)
    (hb : kindOf c b = .own .element)
    (hext : ∀ x ∈ chain, c.external.covers x = false) :
    ∀ x ∈ chain, kindOf c x = .own .element := by
  induction chain generalizing b with
  | nil => simp
  | cons x rest ih =>
    rcases h with ⟨hvalid, hparent, hrest⟩
    rw [List.forall_mem_cons] at hext ⊢
    -- of the four kinds only one is left
    have hx : kindOf c x = .own .element := by
      have hblock := hparent b rfl hb
      have hexternal : kindOf c x ≠ .external := by simp [kindOf_eq_external, hext.1]
      cases hk : kindOf c x with
      | external => exact absurd hk hexternal
      | own k =>
        cases k with
        | block => exact absurd hk hblock
        | element => rfl
        | invalid => exact absurd hk hvalid
    exact ⟨hx, ih hrest hx hext.2⟩

/-- A Block that a clean way without third-party classes leads to from a Block is reached through
Blocks alone. -/
theorem ChainClean.allBlocks {b : String} {chain : List String} (h : ChainClean c (some b) chain)
    (hb : c.isIndependent b = true) (hext : ∀ x ∈ chain, c.external.covers x = false)
    (hlast : ∀ x, chain.getLast? = some x → c.isIndependent x = true) :
    c.AllBlocks (b :: chain) := by
  induction chain generalizing b with
  | nil => simpa [Conventions.AllBlocks] using hb
  | cons x rest ih =>
    rcases h with ⟨hvalid, _, hrest⟩
    rw [List.forall_mem_cons] at hext
    rw [Conventions.allBlocks_cons]
    refine ⟨hb, ?_⟩
    cases hk : kindOf c x with
    | external => simp [kindOf_eq_external, hext.1] at hk
    | own k =>
      cases k with
      | invalid => exact absurd hk hvalid
      | block =>
        refine ih hrest (kindOf_eq_block.mp hk) hext.2 fun z hz => hlast z ?_
        rw [List.getLast?_cons, hz]
        rfl
      | element =>
        -- the last class would be an Element
        exfalso
        obtain ⟨z, hz⟩ : ∃ z, (x :: rest).getLast? = some z := by simp [List.getLast?_cons]
        have hzmem : z ∈ x :: rest := List.mem_of_getLast? hz
        have helement : kindOf c z = .own .element := by
          rcases List.mem_cons.mp hzmem with rfl | hzrest
          · exact hk
          · exact ChainClean.elements hrest hk hext.2 z hzrest
        rw [kindOf_eq_block.mpr (hlast z hz)] at helement
        cases helement

end Lint

end BlockMarkup
