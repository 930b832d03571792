import BlockMarkup.Proofs.Placeholder.Outcome
import BlockMarkup.Proofs.Placeholder.Promoted

/-! # Formatting markup again

Formatting markup that has been formatted reads the formatted trees again, with their classes
(`classesOf_readBack`), and counts the changes that formatting these trees a second time makes
(`changeCount_again`). Under the default rules nothing changes any more, with one exception
(`format_again_default`): an Element `u` with content has become `u-box`, which is a reserved name
and so no Block, and gets a placeholder before it the second time
(`format_again_promotes_reserved`).
-/

namespace BlockMarkup

open Markup (Node Attributes ClassAttribute Settled)
open Markup.ClassAttribute (internalName)

namespace FormatOptions

variable {o : FormatOptions} {html : List Char} {outcome : FormatOutcome} {ns : List Node}
  {as : Attributes} {name : String}

/-! ## Classes -/

theorem classSlot_snd :
    (o.classSlot as).2 = ((as.lookup internalName).or (as.lookup "class")).getD "" := by
  rw [classSlot]
  cases as.lookup internalName with
  | some v => rfl
  | none =>
    cases as.lookup "class" with
    | some v => rfl
    | none => cases o.classAttribute <;> rfl

/-- The classes of an element are read back from the text. -/
theorem classesOf_readBack (h : Settled o.classAttribute.heldName as) :
    o.classesOf (Markup.Token.readBack
      (Markup.renameKeys [internalName] o.classAttribute.heldName (Node.arranged name as))) =
        o.classesOf as := by
  have hsettled : Settled o.classAttribute.heldName (Node.arranged name as) := h.arranged
  have hinternal : (Node.arranged name as).lookup internalName = as.lookup internalName :=
    Markup.lookup_arranged h.nodup_keys (by decide) (by decide)
  have hclass : (Node.arranged name as).lookup "class" = as.lookup "class" :=
    Markup.lookup_arranged h.nodup_keys (by decide) (by decide)
  rw [h.readBack_held, classesOf, classesOf, classSlot_snd, classSlot_snd, ← hinternal, ← hclass]
  cases hattribute : o.classAttribute with
  | plain =>
    have hn := hsettled.nodup
    rw [hattribute] at hn
    have hne : internalName ≠ "class" := by decide
    rw [ClassAttribute.heldName, Markup.lookup_renameKeys_source List.mem_cons_self hne,
      Markup.lookup_renameKeys_target hne hn, Option.none_or]
  | camel => rw [ClassAttribute.heldName, Markup.renameKeys_self]

theorem keepsClasses_of_settled
    (h : ∀ r ∈ Node.routesIn ns, Settled o.classAttribute.heldName r.here.attributes) :
    o.KeepsClasses (fun name as => Markup.Token.readBack
      (Markup.renameKeys [internalName] o.classAttribute.heldName (Node.arranged name as))) ns :=
  fun r hr => classesOf_readBack (h r hr)

theorem any_isElement_formatRoots :
    (o.formatRoots ns).1.any Node.isElement = ns.any Node.isElement := by
  induction ns with
  | nil => rfl
  | cons n rest ih =>
    rw [formatRoots_cons, List.any_cons, List.any_cons, ih]
    cases n <;> rfl

/-! ## The second outcome -/

theorem changeCount_outcomeOf_template (h : Markup.hasTemplateSyntax html = true) :
    (o.outcomeOf html).changeCount = 0 := by
  rw [outcomeOf, if_pos h]
  rfl

/-- Formatting trees that have been formatted, written and read again counts the changes that
formatting them at once a second time does. -/
theorem changeCount_again (h : Markup.Rereadable o.classAttribute (o.formatRoots ns).1)
    (htemplate : Markup.hasTemplateSyntax (Node.writeIn false
      (Node.spelled o.classAttribute.name (o.formatRoots ns).1)) = false)
    (hany : ns.any Node.isElement = true) :
    (o.outcomeOf (Node.writeIn false
      (Node.spelled o.classAttribute.name (o.formatRoots ns).1))).changeCount =
        (o.formatRoots (o.formatRoots ns).1).2 := by
  have hcount := changes_formatRoots_mapAttributes (keepsClasses_of_settled h.settled)
  have htrees := treesOf_writeIn h
  rw [Node.spelled_eq o.classAttribute.heldName, Node.mapAttributesIn_mapAttributesIn] at htrees
  have hany' : (o.treesOf (Node.writeIn false
      (Node.spelled o.classAttribute.name (o.formatRoots ns).1))).any Node.isElement = true := by
    rw [htrees, any_isElement_mapAttributesIn, any_isElement_formatRoots, hany]
  rw [outcomeOf, if_neg (by rw [htemplate]; decide), if_pos hany', h.readableClasses_spelled,
    htrees]
  exact hcount

/-- What comes of formatting markup again: nothing changes exactly if the formatted markup is a
template or no element below a root is unsettled. -/
theorem changeCount_second (ho : o.Consistent) (h : o.format html = .ok outcome)
    (hread : outcome.changeCount ≠ 0 →
      Markup.Rereadable o.classAttribute (o.formatRoots (o.treesOf html)).1) :
    ∃ second, o.format (outcome.result html) = .ok second ∧
      (second.changeCount = 0 ↔ Markup.hasTemplateSyntax (outcome.result html) = true ∨
        ∀ r ∈ Node.routesIn (o.treesOf html), 0 < r.around.length → r.around.length < maxDepth →
          ¬ o.Unsettled r.here) := by
  rw [← changes_formatRoots_again ho]
  obtain rfl := eq_outcomeOf h
  by_cases hchanges : (o.outcomeOf html).changeCount = 0
  · -- the markup is the given one, and so is the outcome
    rw [result_of_changeCount_eq_zero hchanges]
    refine ⟨_, h, iff_of_true hchanges ?_⟩
    refine (changes_of_changeCount_eq_zero hchanges).imp_right fun hnone => ?_
    rw [formatRoots_of_no_change hnone, hnone]
  · have hF := hread hchanges
    obtain ⟨hany, hresult⟩ := result_outcomeOf hchanges
    rw [hresult, renderNodes_replaced hF.marked]
    refine ⟨_, format_writeIn hF, ?_⟩
    cases htemplate : Markup.hasTemplateSyntax (Node.writeIn false (Node.spelled
        o.classAttribute.name (o.formatRoots (o.treesOf html)).1)) with
    | true => exact iff_of_true (changeCount_outcomeOf_template htemplate) (Or.inl rfl)
    | false =>
      rw [changeCount_again hF htemplate hany]
      simp

/-! ## The default rules -/

theorem consistent_default (ho : o.naming = {}) : o.Consistent := by
  constructor
  · rw [ho]
    decide +kernel
  · rw [ho]
    decide +kernel

theorem isBlank_headD {classes : List String} (h : ∀ c ∈ classes, Text.IsWord c) :
    ∀ d ∈ (classes.headD "").toList, Text.isBlank d = false := by
  cases classes with
  | nil => simp
  | cons c rest => exact (h c List.mem_cons_self).2

/-- Under the default rules `u` is the only Element that cannot become a Block. -/
theorem promotes_default (ho : o.naming = {}) {classes : List String}
    (h : ∀ c ∈ classes, Text.IsWord c) :
    o.Promotes (classes.headD "") ↔ classes.headD "" ≠ "u" := by
  rw [Promotes, ho]
  constructor
  · intro hpromotes hu
    rw [hu] at hpromotes
    exact absurd hpromotes (by decide +kernel)
  · intro hu helement
    have hshape := NamingOptions.elementShape_of_classify rfl (isBlank_headD h) helement
    have hisBlock := NamingOptions.isBlock_blockOf_iff (n := {}) rfl rfl rfl hshape
    rw [NamingOptions.classify, if_pos (hisBlock.mpr ?_)]
    rw [← Bool.not_eq_true, NamingOptions.reserved_blockOf_iff hshape]
    rintro ⟨-, hname | hname⟩
    · exact hu hname
    · -- a capital is no Element in kebab case
      rw [hname] at hshape
      exact absurd hshape.first (by decide)

/-- Below a root, an Element `u` has content: it becomes `u-box`, which is a reserved name. -/
def PromotesReserved (o : FormatOptions) (roots : List Node) : Prop :=
  ∃ r ∈ Node.routesIn roots, 0 < r.around.length ∧ r.around.length < maxDepth ∧
    r.here.children.any Node.isElement = true ∧ o.baseOf r.here = "u"

instance (o : FormatOptions) (roots : List Node) : Decidable (o.PromotesReserved roots) :=
  inferInstanceAs (Decidable (∃ r ∈ _, _))

theorem unsettled_default (ho : o.naming = {}) {n : Node} : o.Unsettled n ↔
    n.children.any Node.isElement = true ∧ o.baseOf n = "u" := by
  rw [Unsettled, baseOf, promotes_default ho isWord_of_mem_classesOf, not_not]

/-- Under the default rules, formatting the result of formatting changes nothing exactly if the
result is a template or no Element `u` with content has been promoted. Where nothing changes, the
second result is the first one, character by character. -/
theorem format_again_default (ho : o.naming = {}) (h : o.format html = .ok outcome)
    (hread : outcome.changeCount ≠ 0 →
      Markup.Rereadable o.classAttribute (o.formatRoots (o.treesOf html)).1) :
    ∃ second, o.format (outcome.result html) = .ok second ∧
      (second.changeCount = 0 → second.result (outcome.result html) = outcome.result html) ∧
      (second.changeCount = 0 ↔ Markup.hasTemplateSyntax (outcome.result html) = true ∨
        ¬ o.PromotesReserved (o.treesOf html)) := by
  obtain ⟨second, hsecond, hcount⟩ := changeCount_second (consistent_default ho) h hread
  refine ⟨second, hsecond, fun hnone => result_of_changeCount_eq_zero hnone _, hcount.trans ?_⟩
  rw [PromotesReserved]
  simp only [unsettled_default ho, not_exists, not_and]

/-- A root gets a placeholder, and formatting again leaves it as it is. -/
theorem format_again_default_plain_page :
    ∃ second, ({} : FormatOptions).format "<p class=\"block-box\"><b class=\"x\"></b></p>".toList =
        .ok second ∧
      second.result "<p class=\"block-box\"><b class=\"x\"></b></p>".toList =
        "<p class=\"block-box\"><b class=\"x\"></b></p>".toList := by
  have hformat := format_of_isSome (o := {}) (s := "<p><b class=\"x\"></b></p>".toList)
    (by decide +kernel)
  have hresult : (({} : FormatOptions).outcomeOf "<p><b class=\"x\"></b></p>".toList).result
      "<p><b class=\"x\"></b></p>".toList =
        "<p class=\"block-box\"><b class=\"x\"></b></p>".toList := by
    decide +kernel
  obtain ⟨second, hsecond, hsame, hcount⟩ := format_again_default rfl hformat fun _ => by
    decide +kernel
  rw [hresult] at hsecond hsame hcount
  exact ⟨second, hsecond, hsame (hcount.mpr (Or.inr (by decide +kernel)))⟩

/-- The Element `u` becomes `u-box`, which is no Block: it gets a placeholder the second time. -/
theorem format_again_promotes_reserved :
    let html := "<p class=\"a-b\"><i class=\"u\"><b class=\"x\"></b></i></p>".toList
    let html' := "<p class=\"a-b\"><i class=\"u-box\"><b class=\"x\"></b></i></p>".toList
    (∃ first, ({} : FormatOptions).format html = .ok first ∧ first.result html = html') ∧
      ∃ second, ({} : FormatOptions).format html' = .ok second ∧ second.result html' ≠ html' := by
  intro html html'
  have hsecond : (({} : FormatOptions).outcomeOf html').result html' =
      "<p class=\"a-b\"><i class=\"block-box u-box\"><b class=\"x\"></b></i></p>".toList := by
    decide +kernel
  refine ⟨⟨_, format_of_isSome (by decide +kernel), by decide +kernel⟩,
    ⟨_, format_of_isSome (by decide +kernel), ?_⟩⟩
  rw [hsecond]
  decide +kernel

end FormatOptions

end BlockMarkup
