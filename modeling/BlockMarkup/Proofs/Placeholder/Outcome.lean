import BlockMarkup.Proofs.Placeholder.Spelled

/-! # Formatted markup

What formatting does to a text, in terms of the trees in it (`treesOf`). The outcome is given by
these trees (`eq_outcomeOf`). Where something changes, the new text is that of the formatted trees
(`result_outcomeOf`, `renderNodes_replaced`), and where the text of trees can be read again, with its
class attributes, formatting it goes on with these trees (`treesOf_writeIn`).
-/

namespace BlockMarkup

open Markup (Node Attributes ClassAttribute Piece isInternal)
open Markup.ClassAttribute (internalName)

namespace FormatOptions

variable {o : FormatOptions} {s : List Char} {outcome : FormatOutcome} {nodes ns : List Node}

/-! ## Outcomes -/

/-- The trees in markup, as they are formatted. -/
def treesOf (o : FormatOptions) (s : List Char) : List Node :=
  let read := Node.read (wrapped (Markup.readableClasses o.classAttribute s).markup)
  ((read.toOption.bind (Node.findIn? wrapperName)).map Node.children).getD []

/-- The outcome of formatting markup that can be read. -/
def outcomeOf (o : FormatOptions) (s : List Char) : FormatOutcome :=
  if Markup.hasTemplateSyntax s then .template
  else if (o.treesOf s).any Node.isElement then
    .placed (o.formatRoots (o.treesOf s)).2 (Markup.readableClasses o.classAttribute s).respelled
      ((Regex.text internalName).replaceAll (fun _ => o.classAttribute.name.toList)
        (Markup.renderNodes false (o.formatRoots (o.treesOf s)).1))
  else .noElement

theorem isEmpty_childElements (n : Node) :
    n.childElements.isEmpty = !n.children.any Node.isElement := by
  rw [Node.childElements]
  induction n.children with
  | nil => rfl
  | cons m rest ih => cases h : m.isElement <;> simp [h, ih]

theorem format_of_read
    (h : Node.read (wrapped (Markup.readableClasses o.classAttribute s).markup) = .ok nodes) :
    o.format s = .ok (o.outcomeOf s) := by
  have htrees : o.treesOf s = ((Node.findIn? wrapperName nodes).map Node.children).getD [] := by
    rw [treesOf, h, Except.toOption, Option.bind_some]
  rw [format, outcomeOf, htrees]
  split
  · rfl
  · dsimp only
    rw [h, Except.map]
    cases Node.findIn? wrapperName nodes with
    | none => rfl
    | some w =>
      dsimp only [Option.map_some, Option.getD_some]
      rw [isEmpty_childElements]
      by_cases hany : w.children.any Node.isElement = true
      · rw [if_pos hany, if_neg (by rw [hany]; decide)]
      · rw [if_neg hany, if_pos (by rw [Bool.not_eq_true] at hany; rw [hany]; rfl)]

theorem eq_outcomeOf (h : o.format s = .ok outcome) : outcome = o.outcomeOf s := by
  cases hread : Node.read (wrapped (Markup.readableClasses o.classAttribute s).markup) with
  | ok nodes =>
    rw [format_of_read hread] at h
    exact (Except.ok.inj h).symm
  | error e =>
    rw [format] at h
    rw [outcomeOf]
    split at h
    · rename_i htemplate
      rw [if_pos htemplate]
      exact (Except.ok.inj h).symm
    · dsimp only at h
      rw [hread] at h
      cases h

theorem format_of_isSome (h : (o.format s).toOption.isSome = true) :
    o.format s = .ok (o.outcomeOf s) := by
  cases hformat : o.format s with
  | ok outcome => rw [← eq_outcomeOf hformat]
  | error e =>
    rw [hformat] at h
    cases h

theorem result_of_changeCount_eq_zero (h : outcome.changeCount = 0) (s : List Char) :
    outcome.result s = s := by
  cases outcome with
  | template => rfl
  | noElement => rfl
  | placed changes respelled markup =>
    cases respelled with
    | false =>
      have hchanges : changes = 0 := h
      rw [hchanges]
      rfl
    | true => cases h

theorem result_placed {changes : Nat} {respelled : Bool} {markup : List Char}
    (h : (FormatOutcome.placed changes respelled markup).changeCount ≠ 0) (s : List Char) :
    (FormatOutcome.placed changes respelled markup).result s = markup := by
  cases changes with
  | zero =>
    cases respelled with
    | false => exact absurd rfl h
    | true => rfl
  | succ n => rfl

/-- Markup in which something changes has elements, and becomes the text of the formatted trees. -/
theorem result_outcomeOf (h : (o.outcomeOf s).changeCount ≠ 0) :
    (o.treesOf s).any Node.isElement = true ∧ (o.outcomeOf s).result s =
      (Regex.text internalName).replaceAll (fun _ => o.classAttribute.name.toList)
        (Markup.renderNodes false (o.formatRoots (o.treesOf s)).1) := by
  rw [outcomeOf] at h ⊢
  split
  · rename_i htemplate
    rw [if_pos htemplate] at h
    exact absurd rfl h
  · rename_i htemplate
    rw [if_neg htemplate] at h
    split
    · rename_i hany
      rw [if_pos hany] at h
      exact ⟨hany, result_placed h s⟩
    · rename_i hany
      rw [if_neg hany] at h
      exact absurd rfl h

/-- Where nothing changes, the markup is a template or formatting its trees changes nothing. -/
theorem changes_of_changeCount_eq_zero (h : (o.outcomeOf s).changeCount = 0) :
    Markup.hasTemplateSyntax s = true ∨ (o.formatRoots (o.treesOf s)).2 = 0 := by
  rw [outcomeOf] at h
  split at h
  · rename_i htemplate
    exact Or.inl htemplate
  · split at h
    · right
      cases hrespelled : (Markup.readableClasses o.classAttribute s).respelled with
      | true =>
        rw [hrespelled] at h
        cases h
      | false =>
        rw [hrespelled] at h
        exact h
    · rename_i hany
      rw [formatRoots_of_no_elements (by simpa using hany)]
      exact Or.inr rfl

/-! ## The new text -/

theorem renderNodes_replaced (h : Markup.MarksInternal ns) (target : String) :
    (Regex.text internalName).replaceAll (fun _ => target.toList) (Markup.renderNodes false ns) =
      Node.writeIn false (Node.spelled target ns) := by
  rw [Node.renderNodes_eq, ← Node.spell_piecesIn,
    Piece.replaceAll_spell Markup.marks_internal (Markup.hits_internal target) h
      (fun _ _ _ _ => trivial), ← Node.piecesIn_rename, Node.spell_piecesIn]
  rfl

/-! ## Reading the new text -/

theorem wrapped_writeIn (ns : List Node) :
    wrapped (Node.writeIn false ns) = Node.writeIn false [.element wrapperName [] ns] := by
  have hvoid : Node.voidNames.contains wrapperName = false := by decide
  have hraw : Markup.verbatimNames.contains wrapperName = false := by decide
  rw [wrapped, Node.writeIn, Node.write, hvoid, hraw, Bool.and_false, Node.writeIn]
  simp [Markup.attributesText]

theorem legibleIn_wrapper (h : Node.legibleIn false false ns = true) :
    Node.legibleIn false false [.element wrapperName [] ns] = true := by
  have hvoid : Node.voidNames.contains wrapperName = false := by decide
  have hraw : Markup.verbatimNames.contains wrapperName = false := by decide
  have hpre : Node.preformattedNames.contains wrapperName = false := by decide
  have hname : Markup.Token.Nameable wrapperName.toList := by decide +kernel
  have hnone : Markup.WritableAttributes [] := by decide
  rw [Node.legibleIn, Node.legible, hvoid, hraw, hpre, Bool.or_false, h, Node.legibleIn]
  simp [hname, hnone, Node.isText]

/-- The text of legible trees is read as these trees, with their attributes as they are read. -/
theorem read_wrapped_writeIn (h : Node.legibleIn false false ns = true) :
    Node.read (wrapped (Node.writeIn false ns)) =
      .ok [.element wrapperName []
        (Node.mapAttributesIn (fun _ as => Markup.Token.readBack as) ns)] := by
  rw [wrapped_writeIn, Node.read_writeIn (legibleIn_wrapper h)]
  rfl

theorem findIn?_wrapper : Node.findIn? wrapperName [.element wrapperName [] ns] =
    some (.element wrapperName [] ns) := by
  rw [Node.findIn?, Node.find?, if_pos rfl]

/-- The text of trees can be formatted again. -/
theorem format_writeIn (h : Markup.Rereadable o.classAttribute ns) :
    o.format (Node.writeIn false (Node.spelled o.classAttribute.name ns)) =
      .ok (o.outcomeOf (Node.writeIn false (Node.spelled o.classAttribute.name ns))) := by
  have hlegible := Node.legibleIn_spelled (Markup.writable_heldName o.classAttribute) h.legible
  have hread := read_wrapped_writeIn hlegible
  exact format_of_read (by rw [h.readableClasses_spelled]; exact hread)

/-- Formatting the text of trees again goes on with these trees. -/
theorem treesOf_writeIn (h : Markup.Rereadable o.classAttribute ns) :
    o.treesOf (Node.writeIn false (Node.spelled o.classAttribute.name ns)) =
      Node.mapAttributesIn (fun _ as => Markup.Token.readBack as)
        (Node.spelled o.classAttribute.heldName ns) := by
  have hlegible := Node.legibleIn_spelled (Markup.writable_heldName o.classAttribute) h.legible
  rw [treesOf, h.readableClasses_spelled]
  dsimp only
  rw [read_wrapped_writeIn hlegible, Except.toOption, Option.bind_some, findIn?_wrapper]
  rfl

end FormatOptions

end BlockMarkup
