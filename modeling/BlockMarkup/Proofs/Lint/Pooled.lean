import BlockMarkup.Lint.Run
import BlockMarkup.Proofs.Result

/-! # Rules at pooled nodes

A node pools some parts if they all stand in its place, under its first class, and it has the other
classes and the marked attributes of all of them. A rule then finds at the node what it finds at any
of the parts (`pooledAs_of_mem`): all that rules ask of classes and attributes is whether there is
one of some sort, and which sorts there are is settled by the place and the first class alone. Only
the rule on Blocks around Elements asks for more than a node itself shows (`elementHasBlock_iff`).
-/

namespace BlockMarkup

namespace Lint

/-! ## Parts of a node -/

/-- The two nodes stand in one place and have one first class. -/
structure Alike (x y : NodeContext) : Prop where
  conventions : x.conventions = y.conventions
  mode : x.mode = y.mode
  base : x.base = y.base
  parentBase : x.parentBase = y.parentBase
  atRoot : x.atRoot = y.atRoot

/-- The node has what some other nodes in its place have between them. -/
structure Pools (parts : NodeContext → Prop) (x : NodeContext) : Prop where
  inhabited : ∃ y, parts y
  alike : ∀ y, parts y → Alike x y
  modifiers : ∀ m, m ∈ x.component.modifiers ↔ ∃ y, parts y ∧ m ∈ y.component.modifiers
  variants : ∀ a, a ∈ x.component.variants ↔ ∃ y, parts y ∧ a ∈ y.component.variants
  states : ∀ a, a ∈ x.component.states ↔ ∃ y, parts y ∧ a ∈ y.component.states

variable {α : Type} {F Q Q' : NodeContext → Prop} {items : NodeContext → List α}

/-- The place and the first class settle the value. -/
def Settled (f : NodeContext → α) : Prop := ∀ x y, Alike x y → f x = f y

/-- The items of a node are those of its parts. -/
def Gathered (items : NodeContext → List α) : Prop :=
  ∀ parts x, Pools parts x → ∀ a, a ∈ items x ↔ ∃ y, parts y ∧ a ∈ items y

/-- The condition holds of a node just if it holds of a part. -/
def Pooled (Q : NodeContext → Prop) : Prop :=
  ∀ parts x, Pools parts x → (Q x ↔ ∃ y, parts y ∧ Q y)

theorem gathered_modifiers : Gathered fun x => x.component.modifiers :=
  fun _ _ hx => hx.modifiers

theorem gathered_variants : Gathered fun x => x.component.variants :=
  fun _ _ hx => hx.variants

theorem gathered_states : Gathered fun x => x.component.states :=
  fun _ _ hx => hx.states

theorem gathered_classes : Gathered fun x => x.component.classes := by
  intro parts x hx m
  simp only [Component.classes, List.mem_cons, hx.modifiers]
  constructor
  · rintro (rfl | ⟨y, hy, hm⟩)
    · rcases hx.inhabited with ⟨y, hy⟩
      exact ⟨y, hy, Or.inl (hx.alike y hy).base⟩
    · exact ⟨y, hy, Or.inr hm⟩
  · rintro ⟨y, hy, rfl | hm⟩
    · exact Or.inl (hx.alike y hy).base.symm
    · exact Or.inr ⟨y, hy, hm⟩

/-- Sorting items out by what is settled leaves them gathered. -/
theorem Gathered.filter {p : NodeContext → α → Bool} (h : Gathered items) (hp : Settled p) :
    Gathered fun x => (items x).filter (p x) := by
  intro parts x hx a
  simp only [List.mem_filter, h parts x hx a]
  constructor
  · rintro ⟨⟨y, hy, ha⟩, hpa⟩
    exact ⟨y, hy, ha, hp x y (hx.alike y hy) ▸ hpa⟩
  · rintro ⟨y, hy, ha, hpa⟩
    exact ⟨⟨y, hy, ha⟩, hp x y (hx.alike y hy) ▸ hpa⟩

/-- Whether there are such items is a question to the parts. -/
theorem Gathered.any {p : NodeContext → α → Bool} (h : Gathered items) (hp : Settled p) :
    Pooled fun x => (items x).any (p x) = true := by
  intro parts x hx
  have hfilter := h.filter hp parts x hx
  simp only [List.mem_filter] at hfilter
  simp only [List.any_eq_true, hfilter]
  constructor
  · rintro ⟨a, y, hy, ha⟩
    exact ⟨y, hy, a, ha⟩
  · rintro ⟨y, hy, a, ha⟩
    exact ⟨a, y, hy, ha⟩

theorem Settled.pooled (h : Settled Q) : Pooled Q := by
  intro parts x hx
  constructor
  · intro hq
    rcases hx.inhabited with ⟨y, hy⟩
    exact ⟨y, hy, h x y (hx.alike y hy) ▸ hq⟩
  · rintro ⟨y, hy, hq⟩
    exact h x y (hx.alike y hy) ▸ hq

theorem Pooled.and (hF : Settled F) (hQ : Pooled Q) : Pooled fun x => F x ∧ Q x := by
  intro parts x hx
  simp only [hQ parts x hx]
  constructor
  · rintro ⟨hf, y, hy, hq⟩
    exact ⟨y, hy, hF x y (hx.alike y hy) ▸ hf, hq⟩
  · rintro ⟨y, hy, hf, hq⟩
    exact ⟨hF x y (hx.alike y hy) ▸ hf, y, hy, hq⟩

theorem Pooled.or (hQ : Pooled Q) (hQ' : Pooled Q') : Pooled fun x => Q x ∨ Q' x := by
  intro parts x hx
  simp only [hQ parts x hx, hQ' parts x hx, and_or_left, exists_or]

theorem Pooled.congr (hQ : Pooled Q) (h : ∀ x, Q' x ↔ Q x) : Pooled Q' := by
  intro parts x hx
  simp only [h, hQ parts x hx]

/-! ## What is settled -/

section Settled

variable {x y : NodeContext}

theorem Alike.naming (h : Alike x y) : x.naming = y.naming :=
  congrArg Conventions.naming h.conventions

theorem Alike.external (h : Alike x y) : x.external = y.external :=
  congrArg Conventions.external h.conventions

theorem Alike.policy (h : Alike x y) : x.policy = y.policy :=
  congrArg Conventions.policy h.conventions

theorem Alike.baseKind (h : Alike x y) : x.baseKind = y.baseKind := by
  rw [NodeContext.baseKind, NodeContext.baseKind, h.naming, h.external, h.base]

theorem Alike.hasBase (h : Alike x y) : x.hasBase = y.hasBase := by
  rw [NodeContext.hasBase, NodeContext.hasBase, h.baseKind]

theorem Alike.hasExternalBase (h : Alike x y) : x.hasExternalBase = y.hasExternalBase := by
  rw [NodeContext.hasExternalBase, NodeContext.hasExternalBase, h.baseKind]

theorem Alike.baseIsModifier (h : Alike x y) : x.baseIsModifier = y.baseIsModifier := by
  rw [NodeContext.baseIsModifier, NodeContext.baseIsModifier, h.naming, h.external, h.base]

end Settled

theorem gathered_modifierTokens : Gathered NodeContext.modifierTokens :=
  gathered_modifiers.filter fun x y h => by simp only [h.naming, h.external]

theorem pooled_hasOwnClass : Pooled fun x => x.hasOwnClass = true := by
  have hown : Settled fun x t => !x.external.covers t := fun x y h => by simp only [h.external]
  have hbase : Settled fun x => x.hasExternalBase = true :=
    fun x y h => by simp only [h.hasExternalBase]
  exact (Pooled.and hbase (gathered_modifiers.any hown)).congr fun x => by
    rw [NodeContext.hasOwnClass, Bool.and_eq_true]

/-- A node acts as a Block just if one of its parts does. -/
theorem pooled_actsAsBlock : Pooled fun x => x.actsAsBlock = true := by
  have hkind : Settled fun x => x.baseKind = .own .block := fun x y h => by simp only [h.baseKind]
  have hbase : Settled fun x => x.hasExternalBase = true :=
    fun x y h => by simp only [h.hasExternalBase]
  have hblock : Settled fun x t => !x.external.covers t && x.naming.isBlock t :=
    fun x y h => by simp only [h.external, h.naming]
  refine (hkind.pooled.or (Pooled.and hbase (gathered_modifiers.any hblock))).congr fun x => ?_
  rw [NodeContext.actsAsBlock, NodeContext.inferredKind]
  cases hext : x.hasExternalBase with
  | false => simp
  | true =>
    have hother : x.baseKind ≠ .own .block := by
      intro h
      rw [NodeContext.hasExternalBase, h] at hext
      cases hext
    -- another class decides: a Block if there is one
    simp only [NamingOptions.inferredKind, List.any_filter, if_true, hother, false_or, true_and]
    cases x.component.modifiers.any fun t => !x.external.covers t && x.naming.isBlock t with
    | true => rfl
    | false =>
      cases x.component.modifiers.any fun t => !x.external.covers t && x.naming.isElement t <;>
        simp [hother]

/-! ## Rules -/

end Lint

namespace Rule

open Lint

/-- The rule says that something of the kind is wrong at the node. -/
def Reports (r : Rule) (x : NodeContext) (code : IssueCode) : Prop :=
  ∃ fs, r.check x = .ok fs ∧ ∃ f ∈ fs, f.code = code

/-- The rule reports one kind of issue, where a part of the node shows one; whether it fails is
settled. -/
structure PooledAs (r : Rule) (code : IssueCode) : Prop where
  succeeds : Settled fun x => ∃ fs, r.check x = .ok fs
  reports : Pooled fun x => r.Reports x code
  only : ∀ x code', r.Reports x code' → code' = code

variable {name : String} {codes : List IssueCode} {code : IssueCode}

theorem reports_plain {check : NodeContext → List Finding} {x : NodeContext} :
    (plain name codes check).Reports x code ↔ ∃ f ∈ check x, f.code = code := by
  constructor
  · rintro ⟨_, h, hf⟩
    cases h
    exact hf
  · exact fun hf => ⟨_, rfl, hf⟩

theorem PooledAs.pooled {r : Rule} (h : r.PooledAs code) (code' : IssueCode) :
    Pooled fun x => r.Reports x code' := by
  by_cases he : code' = code
  · exact he ▸ h.reports
  · have hnone : ∀ x, ¬ r.Reports x code' := fun x hr => he (h.only x code' hr)
    exact Settled.pooled fun x y _ => by simp only [hnone]

/-- A rule that cannot fail and whose findings are all of one kind. -/
theorem pooledAs_plain {check : NodeContext → List Finding}
    (hcode : ∀ x, ∀ f ∈ check x, f.code = code) (h : Pooled fun x => check x ≠ []) :
    (plain name codes check).PooledAs code where
  succeeds := by
    intro x y _
    exact propext ⟨fun _ => ⟨_, rfl⟩, fun _ => ⟨_, rfl⟩⟩
  reports := h.congr fun x => by
    rw [reports_plain]
    constructor
    · rintro ⟨f, hf, _⟩
      exact List.ne_nil_of_mem hf
    · intro hne
      rcases List.exists_mem_of_ne_nil _ hne with ⟨f, hf⟩
      exact ⟨f, hf, hcode x f hf⟩
  only := by
    intro x code' h
    rcases reports_plain.mp h with ⟨f, hf, rfl⟩
    exact hcode x f hf

/-- A rule with one finding, on a condition. -/
theorem pooledAs_one {B : NodeContext → Prop} [DecidablePred B] {message : NodeContext → String}
    (h : Pooled B) :
    (plain name codes fun x => if B x then [⟨code, message x⟩] else []).PooledAs code := by
  refine pooledAs_plain (fun x f hf => ?_) (h.congr fun x => ?_)
  · split at hf
    · rw [List.mem_singleton.mp hf]
    · cases hf
  · by_cases hb : B x <;> simp [hb]

/-- A rule with a finding for every item, on a condition that is settled. -/
theorem pooledAs_each {α : Type} {B : NodeContext → Prop} [DecidablePred B]
    {items : NodeContext → List α} {message : NodeContext → α → String} (hB : Settled B)
    (h : Gathered items) :
    (plain name codes fun x =>
      if B x then (items x).map fun a => ⟨code, message x a⟩ else []).PooledAs code := by
  have hall : Settled fun (_ : NodeContext) (_ : α) => true := fun _ _ _ => rfl
  refine pooledAs_plain (fun x f hf => ?_) ((Pooled.and hB (h.any hall)).congr fun x => ?_)
  · split at hf
    · rcases List.mem_map.mp hf with ⟨a, _, rfl⟩
      rfl
    · cases hf
  · by_cases hb : B x <;> simp [hb, List.eq_nil_iff_forall_not_mem]

/-- The value is not empty, and there is a pattern that it does not match. -/
def mismatches (pattern : Except Regex.ReadError NamePattern) (a : AttributeSelector) : Bool :=
  match pattern with
  | .ok p => a.value != "" && !p.matchesName a.value
  | .error _ => false

theorem exists_mem_badValues {p : NamePattern} {as : List AttributeSelector} {code' : IssueCode} :
    (∃ f ∈ badValues code p as, f.code = code') ↔
      code' = code ∧ as.any (mismatches (.ok p)) = true := by
  simp only [badValues, List.mem_map, List.mem_filter, List.any_eq_true, mismatches]
  constructor
  · rintro ⟨_, ⟨a, ha, rfl⟩, rfl⟩
    exact ⟨rfl, a, ha⟩
  · rintro ⟨rfl, a, ha⟩
    exact ⟨_, ⟨a, ha, rfl⟩, rfl⟩

/-- A rule on the values of attributes, which fails if their pattern does. -/
theorem pooledAs_values {B : NodeContext → Bool}
    {pattern : NodeContext → Except Regex.ReadError NamePattern}
    {items : NodeContext → List AttributeSelector} (hB : Settled B) (hpattern : Settled pattern)
    (h : Gathered items) :
    (Rule.mk name codes fun x =>
      if B x then (pattern x).map fun p => badValues code p (items x) else .ok []).PooledAs code := by
  have hbad : Settled fun x a => mismatches (pattern x) a :=
    fun x y hxy => by simp only [hpattern x y hxy]
  have hcond : Settled fun x => B x = true := fun x y hxy => by simp only [hB x y hxy]
  have hreports : ∀ x code', (Rule.mk name codes fun x =>
      if B x then (pattern x).map fun p => badValues code p (items x) else .ok []).Reports x code' ↔
        code' = code ∧ B x = true ∧ ((items x).any fun a => mismatches (pattern x) a) = true := by
    intro x code'
    cases hb : B x with
    | false => simp [Reports, hb]
    | true =>
      cases hp : pattern x with
      | error e => simp [Reports, hb, hp, Except.map, mismatches]
      | ok p => simpa [Reports, hb, hp, Except.map] using exists_mem_badValues
  constructor
  · intro x y hxy
    simp only [hB x y hxy, hpattern x y hxy]
    cases B y with
    | false => simp
    | true => cases pattern y <;> simp [Except.map]
  · exact (Pooled.and hcond (h.any hbad)).congr fun x => by rw [hreports]; simp
  · exact fun x code' hr => ((hreports x code').mp hr).1

/-- Of several other bases the first is reported. -/
theorem pooledAs_singleBase :
    (plain name codes singleBase).PooledAs .multipleBaseClasses := by
  have hbase : Settled fun x => x.hasBase = true := fun x y h => by simp only [h.hasBase]
  have hother : Settled fun x t =>
      !x.external.covers t && (x.naming.isBlock t || x.naming.isElement t) :=
    fun x y h => by simp only [h.external, h.naming]
  refine pooledAs_plain (fun x f hf => ?_)
    ((Pooled.and hbase (gathered_modifiers.any hother)).congr fun x => ?_)
  · rw [singleBase] at hf
    split at hf
    · split at hf
      · rw [List.mem_singleton.mp hf]
      · cases hf
    · cases hf
  · rw [singleBase]
    by_cases hb : x.hasBase
    · rw [if_pos hb]
      split
      · rename_i other hfind
        simp only [hb, ne_eq, List.cons_ne_self, not_false_eq_true, true_iff, true_and]
        have hmatch := List.find?_some hfind
        exact List.any_eq_true.mpr ⟨other, List.mem_of_find?_eq_some hfind, hmatch⟩
      · rename_i hfind
        simpa [hb] using hfind
    · simp [hb]

/-- A Block under an Element: the place and the first class say all. -/
theorem pooledAs_blockParent :
    (plain name codes blockParent).PooledAs .elementParentOfBlock := by
  refine pooledAs_plain (fun x f hf => ?_) (Settled.pooled fun x y h => ?_)
  · rw [blockParent] at hf
    split at hf
    · split at hf
      · rw [List.mem_singleton.mp hf]
      · cases hf
    · cases hf
  · rw [blockParent, blockParent, h.parentBase, h.baseKind, h.naming, h.external, h.base]

/-- The rule that looks further than the node and its parts. -/
theorem reports_elementHasBlock {x : NodeContext} {code' : IssueCode} :
    (plain name codes elementHasBlock).Reports x code' ↔
      code' = .elementWithoutBlockAncestor ∧ x.baseKind = .own .element ∧ x.insideBlock = false := by
  rw [reports_plain, elementHasBlock]
  by_cases hb : x.baseKind = .own .element ∧ x.insideBlock = false
  · simp [hb, eq_comm]
  · have hcond : ¬ (x.baseKind == .own .element && !x.insideBlock) = true := by simpa using hb
    simp [hcond, hb]

theorem pooled_modifierLacksBase : Pooled fun x => (!x.hasExternalBase && !x.hasBase &&
    (!x.modifierTokens.isEmpty || x.baseIsModifier)) = true := by
  have hbase : Settled fun x => (!x.hasExternalBase && !x.hasBase) = true :=
    fun x y h => by simp only [h.hasExternalBase, h.hasBase]
  have hfirst : Settled fun x => x.baseIsModifier = true :=
    fun x y h => by simp only [h.baseIsModifier]
  have hall : Settled fun (_ : NodeContext) (_ : String) => true := fun _ _ _ => rfl
  refine (Pooled.and hbase ((gathered_modifierTokens.any hall).or hfirst.pooled)).congr fun x => ?_
  rw [Bool.and_eq_true, Bool.or_eq_true]
  simp [List.eq_nil_iff_forall_not_mem]

theorem pooled_utilityLacksBase : Pooled fun x => (!x.hasExternalBase && !x.hasBase &&
    x.component.classes.any fun t => "u-".toList.isPrefixOf t.toList) = true := by
  have hbase : Settled fun x => (!x.hasExternalBase && !x.hasBase) = true :=
    fun x y h => by simp only [h.hasExternalBase, h.hasBase]
  have hutility : Settled fun (_ : NodeContext) (t : String) => "u-".toList.isPrefixOf t.toList :=
    fun _ _ _ => rfl
  exact (Pooled.and hbase (gathered_classes.any hutility)).congr fun x => by
    rw [Bool.and_eq_true]

/-- A rule is one of those on base classes, attributes, modifiers or hierarchy. -/
theorem mem_all_iff {r : Rule} : r ∈ Rule.all ↔ r ∈ baseClassRules.rules ∨
    r ∈ attributeRules.rules ∨ r ∈ modifierRules.rules ∨ r ∈ hierarchyRules.rules := by
  simp [Rule.all, RuleSet.all]

/-- All rules but one find at a node what they find at its parts, and that is of the kind they are
meant for. -/
theorem pooledAs_of_mem {r : Rule} (hr : r ∈ Rule.all) :
    (∃ code, code ≠ .elementWithoutBlockAncestor ∧ r.codes = [code] ∧ r.PooledAs code) ∨
      r = plain "check_element_has_block" [.elementWithoutBlockAncestor] elementHasBlock := by
  rw [mem_all_iff] at hr
  simp only [baseClassRules, attributeRules, modifierRules, hierarchyRules, List.mem_cons,
    List.not_mem_nil, or_false] at hr
  rcases hr with (rfl | rfl) | (rfl | rfl | rfl | rfl) | (rfl | rfl | rfl | rfl) |
    (rfl | rfl | rfl)
  · exact Or.inl ⟨_, by decide, rfl, pooledAs_one pooled_hasOwnClass⟩
  · exact Or.inl ⟨_, by decide, rfl, pooledAs_one (Settled.pooled fun x y h => by rw [h.baseKind])⟩
  · exact Or.inl ⟨_, by decide, rfl, pooledAs_each (fun x y h => by rw [h.hasBase, h.policy])
      gathered_variants⟩
  · exact Or.inl ⟨_, by decide, rfl, pooledAs_each (fun x y h => by rw [h.hasBase, h.policy])
      gathered_states⟩
  · exact Or.inl ⟨_, by decide, rfl, pooledAs_values (fun x y h => by rw [h.hasBase, h.policy])
      (fun x y h => by rw [h.policy]) gathered_variants⟩
  · exact Or.inl ⟨_, by decide, rfl, pooledAs_values (fun x y h => by rw [h.hasBase, h.policy])
      (fun x y h => by rw [h.policy]) (gathered_states.filter fun _ _ _ => rfl)⟩
  · exact Or.inl ⟨_, by decide, rfl, pooledAs_each (fun x y h => by rw [h.hasBase, h.policy])
      gathered_modifierTokens⟩
  · exact Or.inl ⟨_, by decide, rfl, pooledAs_one pooled_modifierLacksBase⟩
  · exact Or.inl ⟨_, by decide, rfl, pooledAs_one pooled_utilityLacksBase⟩
  · exact Or.inl ⟨_, by decide, rfl, pooledAs_singleBase⟩
  · exact Or.inl ⟨_, by decide, rfl, pooledAs_one (Settled.pooled fun x y h => by
      rw [h.hasExternalBase, h.mode, h.atRoot, h.baseKind])⟩
  · exact Or.inr rfl
  · exact Or.inl ⟨_, by decide, rfl, pooledAs_blockParent⟩

/-- All rules but the two on values always succeed. -/
theorem plain_or_values {r : Rule} (hr : r ∈ Rule.all) :
    (∃ check : NodeContext → List Finding, r.check = fun x => .ok (check x)) ∨
      r.check = variantValues ∨ r.check = stateValues := by
  rw [mem_all_iff] at hr
  simp only [baseClassRules, attributeRules, modifierRules, hierarchyRules, List.mem_cons,
    List.not_mem_nil, or_false] at hr
  rcases hr with (rfl | rfl) | (rfl | rfl | rfl | rfl) | (rfl | rfl | rfl | rfl) |
    (rfl | rfl | rfl)
  case inr.inl.inr.inr.inl => exact Or.inr (Or.inl rfl)
  case inr.inl.inr.inr.inr => exact Or.inr (Or.inr rfl)
  all_goals exact Or.inl ⟨_, rfl⟩

/-- Rules report only the kinds of issues that they are meant for. -/
theorem mem_codes_of_reports {r : Rule} (hr : r ∈ Rule.all) {x : NodeContext} {code : IssueCode}
    (h : r.Reports x code) : code ∈ r.codes := by
  rcases pooledAs_of_mem hr with ⟨code', _, hcodes, hpooled⟩ | rfl
  · rw [hcodes, hpooled.only x code h]
    exact List.mem_singleton_self _
  · rw [(reports_elementHasBlock.mp h).1]
    exact List.mem_singleton_self _

end Rule

namespace Lint

/-! ## All rules -/

/-- What the rules find at a node. -/
def findings (x : NodeContext) : Except Regex.ReadError (List Finding) :=
  collect (fun r : Rule => r.check x) Rule.all

theorem nodeIssues_eq (x : NodeContext) (path : List String) :
    nodeIssues x path = (findings x).map fun fs =>
      fs.map fun f => ⟨f.code, f.message, x.base, path⟩ := by
  rw [nodeIssues, findings, collect]
  cases Rule.all.mapM fun r : Rule => r.check x <;> rfl

variable {x : NodeContext} {fs : List Finding} {code : IssueCode}

/-- Some rule says that something of the kind is wrong at the node. -/
def Reported (x : NodeContext) (code : IssueCode) : Prop := ∃ r ∈ Rule.all, r.Reports x code

theorem reported_iff (h : findings x = .ok fs) : Reported x code ↔ ∃ f ∈ fs, f.code = code := by
  simp only [mem_of_collect_eq_ok h]
  constructor
  · rintro ⟨r, hr, found, hfound, f, hf, hcode⟩
    exact ⟨f, ⟨r, hr, found, hfound, hf⟩, hcode⟩
  · rintro ⟨f, ⟨r, hr, found, hfound, hf⟩, hcode⟩
    exact ⟨r, hr, found, hfound, f, hf, hcode⟩

/-- Whether the rules fail at a node is settled. -/
theorem settled_findings : Settled fun x => ∃ fs, findings x = .ok fs := by
  intro x y hxy
  simp only [findings, exists_collect_eq_ok]
  refine propext (forall₂_congr fun r hr => ?_)
  rcases Rule.pooledAs_of_mem hr with ⟨_, _, _, hpooled⟩ | rfl
  · exact Iff.of_eq (hpooled.succeeds x y hxy)
  · exact ⟨fun _ => ⟨_, rfl⟩, fun _ => ⟨_, rfl⟩⟩

/-- What is reported of a node is what is reported of its parts, Elements outside Blocks apart. -/
theorem pooled_reported (hcode : code ≠ .elementWithoutBlockAncestor) :
    Pooled fun x => Reported x code := by
  intro parts x hx
  have hrule : ∀ r ∈ Rule.all, Pooled fun x => r.Reports x code := by
    intro r hr
    rcases Rule.pooledAs_of_mem hr with ⟨_, _, _, hpooled⟩ | rfl
    · exact hpooled.pooled code
    · refine Settled.pooled fun _ _ _ => ?_
      simp only [Rule.reports_elementHasBlock, hcode, false_and]
  constructor
  · rintro ⟨r, hr, hreports⟩
    rcases (hrule r hr parts x hx).mp hreports with ⟨y, hy, hreports⟩
    exact ⟨y, hy, r, hr, hreports⟩
  · rintro ⟨y, hy, r, hr, hreports⟩
    exact ⟨r, hr, (hrule r hr parts x hx).mpr ⟨y, hy, hreports⟩⟩

/-- An Element is reported that no Block is known to be around. -/
theorem reported_elementWithoutBlockAncestor :
    Reported x .elementWithoutBlockAncestor ↔
      x.baseKind = .own .element ∧ x.insideBlock = false := by
  constructor
  · rintro ⟨r, hr, hreports⟩
    rcases Rule.pooledAs_of_mem hr with ⟨code, hcode, _, hpooled⟩ | rfl
    · exact absurd (hpooled.only x _ hreports).symm hcode
    · exact (Rule.reports_elementHasBlock.mp hreports).2
  · intro h
    refine ⟨Rule.plain "check_element_has_block" [.elementWithoutBlockAncestor]
      Rule.elementHasBlock, ?_, Rule.reports_elementHasBlock.mpr ⟨rfl, h⟩⟩
    simp [Rule.all, RuleSet.all, Rule.hierarchyRules]

/-- What is reported is reported by rules that are meant for it. -/
theorem reported_iff_rules :
    Reported x code ↔ ∃ r ∈ Rule.all.filter (fun r => decide (code ∈ r.codes)), r.Reports x code := by
  constructor
  · rintro ⟨r, hr, hreports⟩
    have hcodes := Rule.mem_codes_of_reports hr hreports
    exact ⟨r, List.mem_filter.mpr ⟨hr, decide_eq_true hcodes⟩, hreports⟩
  · rintro ⟨r, hr, hreports⟩
    exact ⟨r, (List.mem_filter.mp hr).1, hreports⟩

/-- A base class is reported if it is a third-party class before a class of the project, or neither
a Block nor an Element. -/
theorem reported_invalidBaseClass :
    Reported x .invalidBaseClass ↔ x.hasOwnClass = true ∨ x.baseKind = .own .invalid := by
  have hrules : Rule.all.filter (fun r => decide (IssueCode.invalidBaseClass ∈ r.codes)) =
      Rule.baseClassRules.rules := rfl
  rw [reported_iff_rules, hrules]
  simp only [Rule.baseClassRules, List.mem_cons, List.not_mem_nil, or_false, exists_eq_or_imp,
    exists_eq_left, Rule.reports_plain, Rule.externalBase, Rule.invalidBase]
  by_cases hown : x.hasOwnClass = true <;> by_cases hkind : x.baseKind = .own .invalid <;>
    simp [hown, hkind]

/-- A Block is reported that stands directly under an Element. -/
theorem reported_elementParentOfBlock :
    Reported x .elementParentOfBlock ↔ x.baseKind = .own .block ∧
      ∃ parent, x.parentBase = some parent ∧
        x.naming.classifyWith x.external parent = .own .element := by
  have hrules : Rule.all.filter (fun r => decide (IssueCode.elementParentOfBlock ∈ r.codes)) =
      [Rule.plain "check_block_parent" [.elementParentOfBlock] Rule.blockParent] := rfl
  rw [reported_iff_rules, hrules]
  simp only [List.mem_singleton, exists_eq_left, Rule.reports_plain, Rule.blockParent]
  cases hparent : x.parentBase with
  | none => simp
  | some parent =>
    by_cases hkind : x.baseKind = .own .block <;>
      by_cases helement : x.naming.classifyWith x.external parent = .own .element <;>
        simp [hkind, helement]

/-- What a rule finds that has a finding for every item, on a condition. -/
theorem exists_finding_each {α : Type} {B : Prop} [Decidable B] {items : List α}
    {message : α → String} :
    (∃ f ∈ if B then items.map fun a => (⟨code, message a⟩ : Finding) else [], f.code = code) ↔
      B ∧ items ≠ [] := by
  by_cases hb : B <;> simp [hb, List.eq_nil_iff_forall_not_mem]

/-- Modifiers are reported where attributes mark variants and states. -/
theorem reported_disallowedModifier :
    Reported x .disallowedModifier ↔ (x.hasBase && x.policy.variant.mode == .byData &&
      x.policy.state.mode == .byData) = true ∧ x.modifierTokens ≠ [] := by
  have hrules : Rule.all.filter (fun r => decide (IssueCode.disallowedModifier ∈ r.codes)) =
      [Rule.plain "check_modifier_allowed" [.disallowedModifier] Rule.modifierAllowed] := rfl
  rw [reported_iff_rules, hrules]
  simp only [List.mem_singleton, exists_eq_left, Rule.reports_plain, Rule.modifierAllowed,
    exists_finding_each]

/-- Attributes of variants are reported where classes mark variants. -/
theorem reported_disallowedVariantAttribute :
    Reported x .disallowedVariantAttribute ↔
      (x.hasBase && x.policy.variant.mode == .byClass) = true ∧ x.component.variants ≠ [] := by
  have hrules :
      Rule.all.filter (fun r => decide (IssueCode.disallowedVariantAttribute ∈ r.codes)) =
        [Rule.plain "check_variant_attribute_allowed" [.disallowedVariantAttribute]
          Rule.variantAttributeAllowed] := rfl
  rw [reported_iff_rules, hrules]
  simp only [List.mem_singleton, exists_eq_left, Rule.reports_plain, Rule.variantAttributeAllowed,
    exists_finding_each]

/-- Attributes of states are reported where classes mark states. -/
theorem reported_disallowedStateAttribute :
    Reported x .disallowedStateAttribute ↔
      (x.hasBase && x.policy.state.mode == .byClass) = true ∧ x.component.states ≠ [] := by
  have hrules :
      Rule.all.filter (fun r => decide (IssueCode.disallowedStateAttribute ∈ r.codes)) =
        [Rule.plain "check_state_attribute_allowed" [.disallowedStateAttribute]
          Rule.stateAttributeAllowed] := rfl
  rw [reported_iff_rules, hrules]
  simp only [List.mem_singleton, exists_eq_left, Rule.reports_plain, Rule.stateAttributeAllowed,
    exists_finding_each]

/-- The rules succeed at a node just if those on values do. -/
theorem exists_findings_iff_values :
    (∃ fs, findings x = .ok fs) ↔
      (∃ fs, Rule.variantValues x = .ok fs) ∧ ∃ fs, Rule.stateValues x = .ok fs := by
  rw [findings, exists_collect_eq_ok]
  constructor
  · intro h
    have hvalues := h ⟨"check_variant_values", [.invalidVariantValue], Rule.variantValues⟩
      (by simp [Rule.all, RuleSet.all, Rule.attributeRules])
    have hstates := h ⟨"check_state_values", [.invalidStateValue], Rule.stateValues⟩
      (by simp [Rule.all, RuleSet.all, Rule.attributeRules])
    exact ⟨hvalues, hstates⟩
  · rintro ⟨hvalues, hstates⟩ r hr
    rcases Rule.plain_or_values hr with ⟨check, hcheck⟩ | hcheck | hcheck
    · exact ⟨check x, by rw [hcheck]⟩
    · rwa [hcheck]
    · rwa [hcheck]

/-- The rules succeed at a node if the patterns for values can be read. -/
theorem exists_findings_of_patterns
    (hvariant : ∃ p, x.policy.variant.valueNaming.pattern = .ok p)
    (hstate : ∃ p, x.policy.state.valueNaming.pattern = .ok p) : ∃ fs, findings x = .ok fs := by
  rcases hvariant with ⟨variantPattern, hvariant⟩
  rcases hstate with ⟨statePattern, hstate⟩
  have hvalues : ∃ fs, Rule.variantValues x = .ok fs := by
    rw [Rule.variantValues, hvariant]
    split
    · exact ⟨_, rfl⟩
    · exact ⟨_, rfl⟩
  have hstates : ∃ fs, Rule.stateValues x = .ok fs := by
    rw [Rule.stateValues, hstate]
    split
    · exact ⟨_, rfl⟩
    · exact ⟨_, rfl⟩
  exact exists_findings_iff_values.mpr ⟨hvalues, hstates⟩

end Lint

end BlockMarkup
