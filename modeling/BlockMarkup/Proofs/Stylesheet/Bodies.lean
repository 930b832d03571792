import BlockMarkup.Proofs.Component.Invariant
import BlockMarkup.Proofs.Stylesheet.Alike
import BlockMarkup.Proofs.Stylesheet.Parts
import BlockMarkup.Proofs.Text.Signs

/-! # The inside of rules

The inside of a rule is a sequence of parts: the layout, the variants, then the children of the node.
Each function of the writer gives such parts (`paragraphs_layoutLines` and those after it), and the
recursion over Elements puts them together (`paragraphs_bodyLines`). All of this is for names and
settings that are free of braces and line feeds (`PlainNames`).
-/

namespace BlockMarkup

open Text (trimLeft)

namespace StylesheetWriter

/-! ## Plain names -/

/-- The names that a node brings into a stylesheet are plain. -/
structure PlainNode (x : Component) : Prop where
  base : Plain x.base
  modifiers : ∀ m ∈ x.modifiers, Plain m
  attributes : ∀ a ∈ x.variants ++ x.states, Plain a.key ∧ Plain a.value

/-- The settings and the names in a tree are plain, and no mixin is a comment. -/
structure PlainNames (w : StylesheetWriter) (c : Component) : Prop where
  globalModule : Plain w.options.globalModule
  pageEntryPrefix : Plain w.options.pageEntryPrefix
  childDir : Plain w.options.childDir
  layoutMixins : ∀ m ∈ w.options.layoutMixins, Head m
  nodes : ∀ y, y.IsNodeOf c → PlainNode y

variable {w : StylesheetWriter} {c x y : Component}

theorem PlainNames.child (h : w.PlainNames x) (hy : y ∈ x.ordered) : w.PlainNames y where
  globalModule := h.globalModule
  pageEntryPrefix := h.pageEntryPrefix
  childDir := h.childDir
  layoutMixins := h.layoutMixins
  nodes z hz := h.nodes z (.ordered hy hz)

theorem PlainNames.here (h : w.PlainNames x) : PlainNode x := h.nodes x (.root x)

/-! ## Selectors -/

/-- A selector that begins with a fixed text. -/
theorem head_append {s t : String} (hs : Plain s) (ht : Plain t)
    (hfirst : Braces.isComment (s.toList ++ t.toList) = false) : Head (s ++ t) where
  plain := hs.append ht
  not_comment := by rwa [String.toList_append]

theorem head_class {b : String} (h : Plain b) : Head ("> ." ++ b) :=
  head_append (by decide) h rfl

theorem head_modifierSelector {m : String} (h : Plain m) : Head (modifierSelector m) :=
  head_append (by decide) h rfl

theorem head_attributeSelector {a : AttributeSelector} (hkey : Plain a.key) (hvalue : Plain a.value) :
    Head (attributeSelector a) := by
  have hopen : Plain ("[" ++ a.key) := .append (by decide) hkey
  have hselector : Plain a.selector := by
    unfold AttributeSelector.selector
    split
    · exact hopen.append (by decide)
    · exact ((hopen.append (by decide)).append hvalue).append (by decide)
  exact head_append (by decide) hselector rfl

theorem head_modifierSelectors (h : PlainNode x) {p : String → Bool} :
    ∀ s ∈ (x.modifiers.filter p).map modifierSelector, Head s := by
  intro s hs
  rcases List.mem_map.mp hs with ⟨m, hm, rfl⟩
  exact head_modifierSelector (h.modifiers m (List.mem_of_mem_filter hm))

theorem head_attributeSelectors {as : List AttributeSelector}
    (h : ∀ a ∈ as, Plain a.key ∧ Plain a.value) (mode : SelectorMode) :
    ∀ s ∈ (match mode with | .byData => as.map attributeSelector | .byClass => []), Head s := by
  intro s hs
  cases mode with
  | byClass => cases hs
  | byData =>
    rcases List.mem_map.mp hs with ⟨a, ha, rfl⟩
    exact head_attributeSelector (h a ha).1 (h a ha).2

theorem head_variantSelectors (h : PlainNode x) : ∀ s ∈ w.variantSelectors x, Head s := by
  intro s hs
  rcases w.splitModifiers_eq with ⟨p, q, hsplit⟩
  rw [variantSelectors, hsplit, mem_unique, List.mem_append] at hs
  rcases hs with hs | hs
  · exact head_modifierSelectors h s hs
  · exact head_attributeSelectors (fun a ha => h.attributes a (List.mem_append_left _ ha)) _ s hs

theorem head_stateSelectors (h : PlainNode x) : ∀ s ∈ w.stateSelectors x, Head s := by
  intro s hs
  rcases w.splitModifiers_eq with ⟨p, q, hsplit⟩
  rw [stateSelectors, hsplit, mem_unique, List.mem_append] at hs
  rcases hs with hs | hs
  · exact head_attributeSelectors (fun a ha => h.attributes a (List.mem_append_right _ ha)) _ s hs
  · exact head_modifierSelectors h s hs

/-! ## Rules in the rule of a node -/

/-- The rules with a selector: one for every layout mixin, and one if there are none. -/
def perMixin (w : StylesheetWriter) (s : String) : List String :=
  match w.options.layoutMixins with
  | [] => [s]
  | mixins => mixins.map fun _ => s

/-- The rules for a child. -/
def childRules (w : StylesheetWriter) (x : Component) : List String :=
  if x.independent then w.perMixin ("> ." ++ x.base) else ["> ." ++ x.base]

/-- The rules for the layout, the variants and the children of a node. -/
def bodyRules (w : StylesheetWriter) (x : Component) : List String :=
  w.options.layoutMixins ++ (w.variantSelectors x).flatMap w.perMixin ++
    x.ordered.flatMap w.childRules

/-- The lines for them. -/
def bodyLines (w : StylesheetWriter) (level : Nat) (asRoot : Bool) (x : Component) : List String :=
  (if asRoot && x.ordered.any (·.independent) then
      [line level ("@include meta.load-css(\"" ++ w.options.childDir ++ "\");"), ""]
    else []) ++ w.layoutLines level x.independent ++
    (w.variantSelectors x).flatMap (w.variantLines level) ++
    x.ordered.flatMap (w.childBlockLines level x.isRoot)

theorem blockBody_eq_joinLines (level : Nat) (asRoot : Bool) (x : Component) :
    w.blockBody level asRoot x =
      joinLines (w.bodyLines level asRoot x ++ if x.independent then w.sectionLines level x else []) :=
  w.blockBody_eq level asRoot x

/-! ## Parts of a body -/

theorem paragraphs_note {s : String} (h : Note s) (hs : Solid s) (level : Nat) :
    Paragraphs [line level s, ""] [] :=
  .of_part (a := []) (.note h level) (hs.line level)

theorem layoutLines_ne_nil (level : Nat) (independent : Bool) :
    w.layoutLines level independent ≠ [] := by
  unfold layoutLines
  split
  · exact List.cons_ne_nil _ _
  · rename_i hmixins
    rcases List.exists_cons_of_ne_nil hmixins with ⟨mixin, rest, hcons⟩
    rw [hcons]
    exact List.cons_ne_nil _ _

theorem paragraphs_layoutLines (hmixins : ∀ m ∈ w.options.layoutMixins, Head m) (level : Nat)
    (independent : Bool) :
    Paragraphs (w.layoutLines level independent) (w.options.layoutMixins.map (opening level)) := by
  unfold layoutLines
  split
  · rename_i hnone
    rw [hnone]
    cases independent with
    | false => exact paragraphs_note (s := "// element base styles") (by decide) (by decide) level
    | true => exact paragraphs_note (s := "// block base styles") (by decide) (by decide) level
  · rw [List.map_eq_flatMap]
    exact .flatMap fun mixin hmixin =>
      .rule (hmixins mixin hmixin) level (.note (s := "// layout mixin") (by decide) (level + 1))

/-- What is written for every mixin, or once. -/
theorem paragraphs_perMixin {s : String} {level : Nat} {once : List String}
    {each : String → List String} (hnone : Paragraphs once [opening level s])
    (hsome : ∀ m ∈ w.options.layoutMixins, Paragraphs (each m) [opening level s]) :
    Paragraphs (match w.options.layoutMixins with | [] => once | mixins => mixins.flatMap each)
      ((w.perMixin s).map (opening level)) := by
  unfold perMixin
  split
  · exact hnone
  · rw [List.map_map, List.map_eq_flatMap]
    exact .flatMap hsome

theorem paragraphs_variantLines (hmixins : ∀ m ∈ w.options.layoutMixins, Head m) {s : String}
    (hs : Head s) (level : Nat) :
    Paragraphs (w.variantLines level s) ((w.perMixin s).map (opening level)) := by
  have hnote : ∀ level, Part [line level "// variant styles"] [] :=
    fun level => .note (by decide) level
  apply paragraphs_perMixin
  · exact .rule hs level (hnote (level + 1))
  · intro mixin hmixin
    exact .rule hs level ((hnote (level + 2)).rule (hmixins mixin hmixin) (level + 1))

theorem newline_notMem_format {b : String} (h : '\n' ∉ b.toList) (case : FileCase) :
    '\n' ∉ (FileName.format b case).toList :=
  fun hmem => h (FileName.mem_of_mem_format (by decide) (by decide) hmem)

/-- The comment that names another file. -/
theorem note_rel {target : String} (h : '\n' ∉ target.toList) :
    Note ("// @rel/" ++ target ++ ".scss") := by
  refine ⟨by simp [h], ?_, ?_⟩
  · rw [String.toList_append, String.toList_append]
    rfl
  · have hfourth : (trimLeft ("// @rel/" ++ target ++ ".scss").toList)[3]? = some '@' := by
      rw [String.toList_append, String.toList_append]
      rfl
    rw [hfourth]
    decide

theorem note_childLink (h : w.PlainNames c) {b : String} (hb : Plain b) (fromRoot : Bool) :
    Note (w.childLink fromRoot b) := by
  have hfile := newline_notMem_format hb.1 w.options.childFileCase
  apply note_rel
  split
  · simpa using ⟨h.childDir.1, hfile⟩
  · exact hfile

theorem paragraphs_childLines (h : w.PlainNames c) {b : String} (hb : Plain b) (level : Nat)
    (fromRoot : Bool) :
    Paragraphs (w.childLines level fromRoot b) ((w.perMixin ("> ." ++ b)).map (opening level)) := by
  have hlink : Part [line (level + 1) (w.childLink fromRoot b)] [] :=
    .note (note_childLink h hb fromRoot) (level + 1)
  have hnote : ∀ level, Part [line level "// child component layout"] [] :=
    fun level => .note (by decide) level
  apply paragraphs_perMixin
  · exact .rule (head_class hb) level (hlink.append (hnote (level + 1)))
  · intro mixin hmixin
    exact .rule (head_class hb) level
      (hlink.append ((hnote (level + 2)).rule (h.layoutMixins mixin hmixin) (level + 1)))

theorem paragraphs_load (h : Plain w.options.childDir) (level : Nat) (needed : Bool) :
    Paragraphs (if needed then
        [line level ("@include meta.load-css(\"" ++ w.options.childDir ++ "\");"), ""]
      else []) [] := by
  cases needed with
  | false => exact .nil
  | true =>
    have hplain : Plain ("@include meta.load-css(\"" ++ w.options.childDir ++ "\");") :=
      (Plain.append (by decide) h).append (by decide)
    have hsolid : Solid ("@include meta.load-css(\"" ++ w.options.childDir ++ "\");") :=
      .append_left (by decide) _
    exact .of_part (a := []) (.still ((still_of_plain hplain (by simp)).line level))
      (hsolid.line level)

/-- The inside of a rule up to its marked lines is nested, and its rules are those of the layout, the
variants and the children. -/
theorem paragraphs_bodyLines (h : w.PlainNames x) (level : Nat) (asRoot : Bool) :
    Paragraphs (w.bodyLines level asRoot x) ((w.bodyRules x).map (opening level)) := by
  induction x using Component.ordered_induction generalizing level asRoot with
  | hstep x ih =>
    have hchild : ∀ y ∈ x.ordered, Paragraphs (w.childBlockLines level x.isRoot y)
        ((w.childRules y).map (opening level)) := by
      intro y hy
      have hplain := h.child hy
      unfold childBlockLines childRules
      by_cases hblock : y.independent = true
      · rw [if_pos hblock, if_pos hblock]
        exact paragraphs_childLines hplain hplain.here.base level x.isRoot
      · -- the body of an Element has no marked lines and is joined to one text
        have hbody := ih y hy hplain (level + 1) false
        have hne : w.bodyLines (level + 1) false y ≠ [] := by
          simp [bodyLines, layoutLines_ne_nil]
        rw [if_neg hblock, if_neg hblock, blockBody_eq_joinLines, if_neg hblock, List.append_nil]
        exact .rule (head_class hplain.here.base) level (hbody.joined hne)
    rw [bodyLines, bodyRules, List.map_append, List.map_append, List.map_flatMap, List.map_flatMap]
    apply Paragraphs.append
    · apply Paragraphs.append
      · exact (paragraphs_load h.childDir level _).append
          (paragraphs_layoutLines h.layoutMixins level x.independent)
      · exact .flatMap fun s hs =>
          paragraphs_variantLines h.layoutMixins (head_variantSelectors h.here s hs) level
    · exact .flatMap hchild

end StylesheetWriter

end BlockMarkup
