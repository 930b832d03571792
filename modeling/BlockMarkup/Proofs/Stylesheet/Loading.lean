import BlockMarkup.Proofs.Stylesheet.Confined
import BlockMarkup.Proofs.Stylesheet.Sections

/-! # Loading the styles of child Blocks

The file of a page loads the directory of child Blocks, by its index. That the line which does so is
written and that there is an index is decided in two places: the writer looks whether the node that it is
told is the root has a Block among its children, the generator whether it has come upon any child Block.
`fileLines` are the lines that the writer puts down for a sheet, with those of Elements at every depth.
The line that loads is among them for the page alone, once, and just if there is an index beside the file
(`loadLine_mem_iff`).
-/

namespace BlockMarkup

open Markup (RootMode Document Node)
open Text (trimLeft)

namespace StylesheetWriter

variable {w : StylesheetWriter} {mode : RootMode} {html : List Char} {files : List GeneratedFile}
  {level : Nat} {x : Component} {s : String}

/-! ## Lines that are put down -/

/-- The line that loads the styles of child Blocks. -/
def loadLine (w : StylesheetWriter) (level : Nat) : String :=
  line level ("@include meta.load-css(\"" ++ w.options.childDir ++ "\");")

mutual

/-- The lines that are put down inside the rule of a node. Of the empty line at the end nothing is
kept. -/
def innerLines (w : StylesheetWriter) (level : Nat) (asRoot : Bool) : Component → List String
  | .mk b i m v s n is o t r d =>
    let c : Component := .mk b i m v s n is o t r d
    let load := if asRoot && o.any (·.independent) then [w.loadLine level, ""] else []
    (load ++ w.layoutLines level i ++ (w.variantSelectors c).flatMap (w.variantLines level) ++
      childInnerLines w level r o ++ if i then w.sectionLines level c else []).dropLast

/-- The lines that are put down for the children of a node. -/
def childInnerLines (w : StylesheetWriter) (level : Nat) (fromRoot : Bool) :
    List Component → List String
  | [] => []
  | c :: rest =>
    (if c.independent then w.childLines level fromRoot c.base
      else opening level ("> ." ++ c.base) :: innerLines w (level + 1) false c ++ [closing level, ""]) ++
      childInnerLines w level fromRoot rest

end

/-- The lines that are put down for one child. -/
def oneChildLines (w : StylesheetWriter) (level : Nat) (fromRoot : Bool) (x : Component) : List String :=
  if x.independent then w.childLines level fromRoot x.base
  else opening level ("> ." ++ x.base) :: w.innerLines (level + 1) false x ++ [closing level, ""]

/-- The lines inside a rule, those for the children given. -/
def linesAround (w : StylesheetWriter) (level : Nat) (x : Component) (children : List String) :
    List String :=
  w.layoutLines level x.independent ++ (w.variantSelectors x).flatMap (w.variantLines level) ++ children ++
    if x.independent then w.sectionLines level x else []

/-- The line that loads, where it is needed. -/
def loadLines (w : StylesheetWriter) (level : Nat) (needed : Bool) : List String :=
  if needed then [w.loadLine level, ""] else []

theorem childInnerLines_eq (level : Nat) (fromRoot : Bool) (xs : List Component) :
    w.childInnerLines level fromRoot xs = xs.flatMap (w.oneChildLines level fromRoot) := by
  induction xs with
  | nil => rfl
  | cons x rest ih =>
    rw [childInnerLines, ih, List.flatMap_cons]
    rfl

theorem linesAround_ne_nil (children : List String) : w.linesAround level x children ≠ [] := by
  simp [linesAround, layoutLines_ne_nil]

theorem innerLines_eq (level : Nat) (asRoot : Bool) (x : Component) :
    w.innerLines level asRoot x = w.loadLines level (asRoot && x.ordered.any (·.independent)) ++
      (w.linesAround level x (x.ordered.flatMap (w.oneChildLines level x.isRoot))).dropLast := by
  rw [← List.dropLast_append_of_ne_nil (linesAround_ne_nil _), ← childInnerLines_eq]
  cases x
  simp only [innerLines, loadLines, linesAround, List.append_assoc]
  rfl

theorem blockBody_eq_linesAround (level : Nat) (asRoot : Bool) (x : Component) :
    w.blockBody level asRoot x =
      joinLines (w.loadLines level (asRoot && x.ordered.any (·.independent)) ++
        w.linesAround level x (x.ordered.flatMap (w.childBlockLines level x.isRoot))) := by
  rw [blockBody_eq]
  simp only [loadLines, loadLine, linesAround, List.append_assoc]

/-! ## How lines end -/

theorem trailing_closing (before : List String) (level : Nat) : Trailing (before ++ [closing level, ""]) :=
  ⟨before, closing level, rfl, .line (by decide) level⟩

/-- What is written for every mixin, or once. -/
theorem trailing_perMixin {once : List String} {each : String → List String} (hnone : Trailing once)
    (hsome : ∀ m, Trailing (each m)) :
    Trailing (match w.options.layoutMixins with | [] => once | mixins => mixins.flatMap each) := by
  split
  · exact hnone
  · rename_i hmixins
    obtain ⟨m, rest, hcons⟩ := List.exists_cons_of_ne_nil hmixins
    rw [hcons, List.flatMap_cons]
    exact (hsome m).append_right (trailing_flatMap fun m _ => hsome m)

theorem trailing_layoutLines (level : Nat) (independent : Bool) :
    Trailing (w.layoutLines level independent) := by
  apply trailing_perMixin
  · refine ⟨[], _, rfl, .line ?_ level⟩
    cases independent with
    | false => decide
    | true => decide
  · exact fun mixin => trailing_closing [opening level mixin, line (level + 1) "// layout mixin"] level

theorem trailing_variantLines (level : Nat) (selector : String) : Trailing (w.variantLines level selector) := by
  apply trailing_perMixin
  · exact trailing_closing [opening level selector, line (level + 1) "// variant styles"] level
  · exact fun mixin => trailing_closing [opening level selector, opening (level + 1) mixin,
      line (level + 2) "// variant styles", closing (level + 1)] level

theorem trailing_childLines (level : Nat) (fromRoot : Bool) (b : String) :
    Trailing (w.childLines level fromRoot b) := by
  apply trailing_perMixin
  · exact trailing_closing [opening level ("> ." ++ b), line (level + 1) (w.childLink fromRoot b),
      line (level + 1) "// child component layout"] level
  · exact fun mixin => trailing_closing [opening level ("> ." ++ b),
      line (level + 1) (w.childLink fromRoot b), opening (level + 1) mixin,
      line (level + 2) "// child component layout", closing (level + 1)] level

theorem trailing_sectionLines (level : Nat) (x : Component) : Trailing (w.sectionLines level x) := by
  unfold sectionLines
  split
  · exact ⟨["", line level sharedMarker, "", line level interactionMarker, line level "// @at-root & \x7b"],
      line level "// \x7d", rfl, .line (by decide) level⟩
  · exact (trailing_closing _ level).append_left _

theorem trailing_linesAround {children : List String} (h : children = [] ∨ Trailing children) :
    Trailing (w.linesAround level x children) := by
  unfold linesAround
  refine Trailing.append_right ?_ ?_
  · refine Trailing.append_right ?_ h
    exact (trailing_layoutLines level x.independent).append_right
      (trailing_flatMap fun selector _ => trailing_variantLines level selector)
  · split
    · exact Or.inr (trailing_sectionLines level x)
    · exact Or.inl rfl

theorem trailing_childBlockLines (level : Nat) (fromRoot : Bool) (x : Component) :
    Trailing (w.childBlockLines level fromRoot x) := by
  unfold childBlockLines
  split
  · exact trailing_childLines level fromRoot x.base
  · exact trailing_closing [opening level ("> ." ++ x.base), w.blockBody (level + 1) false x] level

theorem trailing_oneChildLines (level : Nat) (fromRoot : Bool) (x : Component) :
    Trailing (w.oneChildLines level fromRoot x) := by
  unfold oneChildLines
  split
  · exact trailing_childLines level fromRoot x.base
  · exact trailing_closing _ level

/-- There are lines inside every rule. -/
theorem innerLines_ne_nil (level : Nat) (asRoot : Bool) (x : Component) :
    w.innerLines level asRoot x ≠ [] := by
  have htrailing : Trailing (w.linesAround level x (x.ordered.flatMap (w.oneChildLines level x.isRoot))) :=
    trailing_linesAround (trailing_flatMap fun y _ => trailing_oneChildLines level x.isRoot y)
  obtain ⟨before, text, hlines, -⟩ := htrailing
  rw [innerLines_eq, hlines]
  simp [List.dropLast_append_of_ne_nil]

/-! ## The text of the lines -/

/-- Put together, the texts are one and the same, and there are some just if there are others. -/
structure SameText (a b : List String) : Prop where
  nil_iff : a = [] ↔ b = []
  text : "\n".intercalate a = "\n".intercalate b

namespace SameText

variable {a a' b b' : List String}

theorem refl (a : List String) : SameText a a := ⟨Iff.rfl, rfl⟩

theorem append (h : SameText a b) (h' : SameText a' b') : SameText (a ++ a') (b ++ b') := by
  by_cases ha : a = []
  · obtain rfl := ha
    obtain rfl := h.nil_iff.mp rfl
    exact h'
  by_cases ha' : a' = []
  · obtain rfl := ha'
    obtain rfl := h'.nil_iff.mp rfl
    rwa [List.append_nil, List.append_nil]
  have hb : b ≠ [] := fun hnil => ha (h.nil_iff.mpr hnil)
  have hb' : b' ≠ [] := fun hnil => ha' (h'.nil_iff.mpr hnil)
  constructor
  · simp [ha, hb]
  · rw [Text.intercalate_append ha ha', Text.intercalate_append hb hb', h.text, h'.text]

theorem flatMap {α : Type} {xs : List α} {f g : α → List String} (h : ∀ x ∈ xs, SameText (f x) (g x)) :
    SameText (xs.flatMap f) (xs.flatMap g) := by
  induction xs with
  | nil => exact refl []
  | cons x xs ih =>
    rw [List.forall_mem_cons] at h
    rw [List.flatMap_cons, List.flatMap_cons]
    exact h.1.append (ih h.2)

/-- Joining cuts off the empty text at the end, of the one as of the other. -/
theorem joinLines_eq (h : SameText a b) (ha : Trailing a) (hb : Trailing b) :
    joinLines a = "\n".intercalate b.dropLast := by
  obtain ⟨before, text, rfl, hsolid⟩ := ha
  obtain ⟨before', text', rfl, -⟩ := hb
  have hcut : ∀ (before : List String) text, before ++ [text, ""] = before ++ [text] ++ [""] := by
    intro before text
    rw [List.append_assoc]
    rfl
  have hfeed : ∀ (before : List String) text,
      "\n".intercalate (before ++ [text] ++ [""]) = "\n".intercalate (before ++ [text]) ++ "\n" := by
    intro before text
    rw [Text.intercalate_append (by simp) (by simp)]
    exact String.append_empty
  have htext := h.text
  rw [hcut, hcut, hfeed, hfeed, String.append_left_inj] at htext
  rw [joinLines_of_solid before hsolid, hcut, List.dropLast_concat]
  exact htext

end SameText

theorem sameText_linesAround {a b : List String} (h : SameText a b) :
    SameText (w.linesAround level x a) (w.linesAround level x b) := by
  unfold linesAround
  exact ((SameText.refl _).append h).append (.refl _)

/-- The text inside a rule is that of the lines that are put down. -/
theorem blockBody_eq_innerLines (level : Nat) (asRoot : Bool) (x : Component) :
    w.blockBody level asRoot x = "\n".intercalate (w.innerLines level asRoot x) := by
  -- on the tree, at all levels at once: an Element stands one level deeper
  induction x using Component.ordered_induction generalizing level asRoot with
  | hstep x ih =>
    have hchild : ∀ y ∈ x.ordered, SameText (w.childBlockLines level x.isRoot y)
        (w.oneChildLines level x.isRoot y) := by
      intro y hy
      unfold childBlockLines oneChildLines
      split
      · exact .refl _
      · -- the text of an Element is that of its lines
        have hbody : SameText [w.blockBody (level + 1) false y] (w.innerLines (level + 1) false y) :=
          ⟨by simp [innerLines_ne_nil], ih y hy (level + 1) false⟩
        exact ((SameText.refl [opening level ("> ." ++ y.base)]).append hbody).append
          (.refl [closing level, ""])
    have haround : SameText
        (w.linesAround level x (x.ordered.flatMap (w.childBlockLines level x.isRoot)))
        (w.linesAround level x (x.ordered.flatMap (w.oneChildLines level x.isRoot))) :=
      sameText_linesAround (.flatMap hchild)
    have hsame := (SameText.refl (w.loadLines level (asRoot && x.ordered.any (·.independent)))).append
      haround
    rw [blockBody_eq_linesAround, innerLines_eq, ← List.dropLast_append_of_ne_nil (linesAround_ne_nil _)]
    -- both end with an empty line, which joining cuts off the one and `dropLast` the other
    apply hsame.joinLines_eq
    · exact (trailing_linesAround
        (trailing_flatMap fun y _ => trailing_childBlockLines level x.isRoot y)).append_left _
    · exact (trailing_linesAround
        (trailing_flatMap fun y _ => trailing_oneChildLines level x.isRoot y)).append_left _

/-! ## Lines that do not load -/

/-- A comment, a line that is no inclusion, or one that does not end with a semicolon. -/
def Unloading (s : String) : Prop :=
  Braces.isComment s.toList = true ∨ (trimLeft s.toList)[1]? ≠ some 'i' ∨ s.toList.getLast? ≠ some ';'

theorem Unloading.ne_loadLine (h : Unloading s) (level : Nat) : s ≠ w.loadLine level := by
  rintro rfl
  have hload : ∀ directory : String, ("@include meta.load-css(\"" ++ directory ++ "\");").toList =
      '@' :: 'i' :: ("nclude meta.load-css(\"" ++ directory ++ "\")").toList ++ [';'] := by
    intro directory
    simp
  -- the line is no comment, it is an inclusion, and its last character is a semicolon
  rcases h with hcomment | hinclude | hlast
  · rw [loadLine, isComment_line, hload] at hcomment
    cases hcomment
  · rw [loadLine, trimLeft_line, hload] at hinclude
    exact hinclude rfl
  · rw [loadLine, toList_line, hload, ← List.append_assoc, List.getLast?_concat] at hlast
    exact hlast rfl

theorem unloading_empty : Unloading "" := by
  right
  right
  decide

theorem unloading_opening (level : Nat) (s : String) : Unloading (opening level s) := by
  right
  right
  rw [toList_opening, List.getLast?_concat]
  decide

theorem unloading_closing (level : Nat) : Unloading (closing level) := by
  right
  right
  rw [closing, toList_line]
  simp

theorem unloading_comment (h : Braces.isComment s.toList = true) (level : Nat) : Unloading (line level s) := by
  left
  rw [isComment_line]
  exact h

theorem unloading_note (h : Braces.isComment s.toList = true) (level : Nat) :
    ∀ t ∈ [line level s], Unloading t :=
  List.forall_mem_singleton.mpr (unloading_comment h level)

/-- A rule around lines that do not load. -/
theorem unloading_rule {inner : List String} (h : ∀ s ∈ inner, Unloading s) (level : Nat)
    (selector : String) : ∀ s ∈ opening level selector :: inner ++ [closing level], Unloading s := by
  intro s hs
  rw [List.cons_append, List.mem_cons, List.mem_append, List.mem_singleton] at hs
  rcases hs with rfl | hs | rfl
  · exact unloading_opening level selector
  · exact h s hs
  · exact unloading_closing level

/-- A rule and an empty line. -/
theorem unloading_paragraph {inner : List String} (h : ∀ s ∈ inner, Unloading s) (level : Nat)
    (selector : String) : ∀ s ∈ opening level selector :: inner ++ [closing level, ""], Unloading s := by
  intro s hs
  have happend : opening level selector :: inner ++ [closing level, ""] =
      opening level selector :: inner ++ [closing level] ++ [""] := by
    rw [List.append_assoc]
    rfl
  rw [happend, List.mem_append, List.mem_singleton] at hs
  rcases hs with hs | rfl
  · exact unloading_rule h level selector s hs
  · exact unloading_empty

theorem unloading_flatMap {α : Type} {xs : List α} {f : α → List String}
    (h : ∀ x ∈ xs, ∀ s ∈ f x, Unloading s) : ∀ s ∈ xs.flatMap f, Unloading s := by
  intro s hs
  obtain ⟨x, hx, hs⟩ := List.mem_flatMap.mp hs
  exact h x hx s hs

theorem unloading_perMixin {once : List String} {each : String → List String}
    (hnone : ∀ s ∈ once, Unloading s) (hsome : ∀ m, ∀ s ∈ each m, Unloading s) :
    ∀ s ∈ (match w.options.layoutMixins with | [] => once | mixins => mixins.flatMap each), Unloading s := by
  split
  · exact hnone
  · exact unloading_flatMap fun m _ => hsome m

theorem unloading_layoutLines (level : Nat) (independent : Bool) :
    ∀ s ∈ w.layoutLines level independent, Unloading s := by
  apply unloading_perMixin
  · refine List.forall_mem_cons.mpr ⟨unloading_comment ?_ level, List.forall_mem_singleton.mpr unloading_empty⟩
    cases independent with
    | false => rfl
    | true => rfl
  · exact fun mixin => unloading_paragraph (unloading_note rfl (level + 1)) level mixin

theorem unloading_variantLines (level : Nat) (selector : String) :
    ∀ s ∈ w.variantLines level selector, Unloading s := by
  apply unloading_perMixin
  · exact unloading_paragraph (unloading_note rfl (level + 1)) level selector
  · intro mixin
    have hmixin := unloading_rule (unloading_note (s := "// variant styles") rfl (level + 2)) (level + 1) mixin
    exact unloading_paragraph hmixin level selector

theorem isComment_childLink (fromRoot : Bool) (b : String) :
    Braces.isComment (w.childLink fromRoot b).toList = true := by
  unfold childLink
  rw [String.append_assoc, String.toList_append]
  rfl

theorem unloading_childLines (level : Nat) (fromRoot : Bool) (b : String) :
    ∀ s ∈ w.childLines level fromRoot b, Unloading s := by
  have hlink : Unloading (line (level + 1) (w.childLink fromRoot b)) :=
    unloading_comment (isComment_childLink fromRoot b) (level + 1)
  have hnote : ∀ level, ∀ s ∈ [line level "// child component layout"], Unloading s :=
    unloading_note rfl
  apply unloading_perMixin
  · exact unloading_paragraph (List.forall_mem_cons.mpr ⟨hlink, hnote (level + 1)⟩) level _
  · intro mixin
    have hmixin := unloading_rule (hnote (level + 2)) (level + 1) mixin
    exact unloading_paragraph (List.forall_mem_cons.mpr ⟨hlink, hmixin⟩) level _

theorem unloading_stateLines (level : Nat) (selector : String) :
    ∀ s ∈ stateLines level selector, Unloading s :=
  unloading_paragraph (unloading_note rfl (level + 1)) level selector

theorem unloading_elementStateLines (level : Nat) (e : ElementStates) :
    ∀ s ∈ elementStateLines level e, Unloading s :=
  unloading_paragraph (unloading_flatMap fun selector _ => unloading_stateLines (level + 1) selector) level
    e.pathSelector

theorem unloading_sectionLines (level : Nat) (x : Component) :
    ∀ s ∈ w.sectionLines level x, Unloading s := by
  unfold sectionLines
  intro s hs
  rcases List.mem_append.mp hs with hs | hs
  · simp only [List.mem_cons, List.not_mem_nil, or_false] at hs
    rcases hs with rfl | rfl | rfl | rfl
    · exact unloading_empty
    · exact unloading_comment (by decide) level
    · exact unloading_empty
    · exact unloading_comment (by decide) level
  · split at hs
    · simp only [List.mem_cons, List.not_mem_nil, or_false] at hs
      rcases hs with rfl | rfl | rfl
      · exact unloading_comment (by decide) level
      · exact unloading_comment (by decide) level
      · exact unloading_empty
    · refine unloading_paragraph (List.forall_mem_append.mpr ⟨?_, ?_⟩) level "@at-root &" s hs
      · exact unloading_flatMap fun selector _ => unloading_stateLines (level + 1) selector
      · exact unloading_flatMap fun e _ => unloading_elementStateLines (level + 1) e

/-- Nothing but the line that loads is like it, in the rule of a node and in those of its Elements. -/
theorem unloading_linesAround (level : Nat) (x : Component) :
    ∀ s ∈ w.linesAround level x (x.ordered.flatMap (w.oneChildLines level x.isRoot)), Unloading s := by
  induction x using Component.ordered_induction generalizing level with
  | hstep x ih =>
    have hchild : ∀ y ∈ x.ordered, ∀ s ∈ w.oneChildLines level x.isRoot y, Unloading s := by
      intro y hy
      unfold oneChildLines
      split
      · exact unloading_childLines level x.isRoot y.base
      · -- the Element is not told that it is the root
        refine unloading_paragraph (fun s hs => ?_) level _
        rw [innerLines_eq] at hs
        exact ih y hy (level + 1) s (List.mem_of_mem_dropLast hs)
    have hsections : ∀ s ∈ if x.independent then w.sectionLines level x else [], Unloading s := by
      split
      · exact unloading_sectionLines level x
      · exact fun s hs => absurd hs List.not_mem_nil
    unfold linesAround
    simp only [List.forall_mem_append]
    exact ⟨⟨⟨unloading_layoutLines level x.independent,
      unloading_flatMap fun selector _ => unloading_variantLines level selector⟩,
      unloading_flatMap hchild⟩, hsections⟩

/-! ## Files -/

/-- The lines that are put down for a sheet. -/
def fileLines (w : StylesheetWriter) (s : Sheet) : List String :=
  w.headerLines s.node s.parent s.hint s.rootFile ++
    opening 0 ("." ++ s.node.base) :: w.innerLines 1 s.node.isRoot s.node ++ [closing 0, ""]

/-- No line loads styles, at whatever level. -/
def NoneLoads (w : StylesheetWriter) (lines : List String) : Prop :=
  ∀ l ∈ lines, ∀ level, l ≠ w.loadLine level

/-- One line loads styles, right in the rule of the file, and no other one does. -/
def OneLoads (w : StylesheetWriter) (lines : List String) : Prop :=
  ∃ before after, lines = before ++ w.loadLine 1 :: after ∧ w.NoneLoads before ∧ w.NoneLoads after

theorem noneLoads_of_unloading {lines : List String} (h : ∀ s ∈ lines, Unloading s) : w.NoneLoads lines :=
  fun l hl level => (h l hl).ne_loadLine level

/-- The text of a file is that of the lines that are put down for its sheet. -/
theorem content_fileOf (mode : RootMode) (s : Sheet) :
    (w.fileOf mode s).content = "\n".intercalate (w.fileLines s) := by
  have hlines : "\n".intercalate
      ((w.headerLines s.node s.parent s.hint s.rootFile ++ [opening 0 ("." ++ s.node.base)]) ++
        "\n".intercalate (w.innerLines 1 s.node.isRoot s.node) :: [closing 0, ""]) =
      "\n".intercalate
        ((w.headerLines s.node s.parent s.hint s.rootFile ++ [opening 0 ("." ++ s.node.base)]) ++
          w.innerLines 1 s.node.isRoot s.node ++ [closing 0, ""]) :=
    Text.intercalate_intercalate (by simp) (innerLines_ne_nil 1 s.node.isRoot s.node) (by simp)
  rw [← blockBody_eq_innerLines] at hlines
  have hcontent := fileContent_eq w s.node s.parent s.hint s.rootFile
  simp only [fileOf, fileLines, List.append_assoc, List.cons_append, List.nil_append] at hlines hcontent ⊢
  rw [hcontent, hlines]

theorem unloading_use (rest : String) : Unloading ("@use \"" ++ rest) := by
  have hsecond : (trimLeft ("@use \"" ++ rest).toList)[1]? = some 'u' := by
    rw [String.toList_append]
    rfl
  right
  left
  rw [hsecond]
  decide

theorem unloading_headerLines (s : Sheet) :
    ∀ l ∈ w.headerLines s.node s.parent s.hint s.rootFile, Unloading l := by
  have huse : Unloading ("@use \"" ++ w.options.globalModule ++ "\" as *;") := by
    rw [String.append_assoc]
    exact unloading_use _
  have hcomment : ∀ text : String, Unloading ("// " ++ text) := by
    intro text
    left
    rw [String.toList_append]
    rfl
  unfold headerLines
  split
  · simp only [List.forall_mem_cons]
    exact ⟨huse, unloading_use "sass:meta\";", unloading_empty, hcomment _, unloading_empty, by simp⟩
  · simp only [List.forall_mem_cons]
    refine ⟨huse, unloading_empty, ?_, unloading_empty, by simp⟩
    left
    rw [String.append_assoc, String.toList_append]
    rfl

/-- What a file loads depends on whether its Block is marked as a root and has a child Block. -/
theorem loads_of_sheet (s : Sheet) :
    if s.node.isRoot && s.node.ordered.any (·.independent) then w.OneLoads (w.fileLines s)
    else w.NoneLoads (w.fileLines s) := by
  have hbefore : ∀ l ∈ w.headerLines s.node s.parent s.hint s.rootFile ++ [opening 0 ("." ++ s.node.base)],
      Unloading l :=
    List.forall_mem_append.mpr
      ⟨unloading_headerLines s, List.forall_mem_singleton.mpr (unloading_opening 0 _)⟩
  have hafter : ∀ l ∈ (w.linesAround 1 s.node
      (s.node.ordered.flatMap (w.oneChildLines 1 s.node.isRoot))).dropLast ++ [closing 0, ""],
      Unloading l := by
    refine List.forall_mem_append.mpr ⟨fun l hl => ?_, ?_⟩
    · exact unloading_linesAround 1 s.node l (List.mem_of_mem_dropLast hl)
    · exact List.forall_mem_cons.mpr ⟨unloading_closing 0, List.forall_mem_singleton.mpr unloading_empty⟩
  have hlines : w.fileLines s =
      (w.headerLines s.node s.parent s.hint s.rootFile ++ [opening 0 ("." ++ s.node.base)]) ++
        (w.loadLines 1 (s.node.isRoot && s.node.ordered.any (·.independent)) ++
          ((w.linesAround 1 s.node
            (s.node.ordered.flatMap (w.oneChildLines 1 s.node.isRoot))).dropLast ++ [closing 0, ""])) := by
    simp only [fileLines, innerLines_eq, List.append_assoc, List.cons_append, List.nil_append]
  rw [hlines]
  cases s.node.isRoot && s.node.ordered.any (·.independent) with
  | true =>
    refine ⟨_, _, rfl, noneLoads_of_unloading hbefore, noneLoads_of_unloading ?_⟩
    exact List.forall_mem_cons.mpr ⟨unloading_empty, hafter⟩
  | false => exact noneLoads_of_unloading (List.forall_mem_append.mpr ⟨hbefore, hafter⟩)

/-! ## Pages -/

variable {roots : List Node} {t : Component} {q : Sheet}

/-- The file of the sheet is that of a page, and there is an index beside it. -/
def BesideIndex (w : StylesheetWriter) (mode : RootMode) (files : List GeneratedFile) (s : Sheet) : Prop :=
  mode = .root ∧ s.parent = none ∧
    ∃ others, files = w.fileOf mode s :: others ∧ w.indexPath ∈ others.map GeneratedFile.path

theorem hasIndex_page_iff : HasIndex .root [t] ↔ t.independents ≠ [] := by
  rw [← exists_longer_iff, HasIndex]
  simp [Component.blockPathsIn]

/-- Beside the file of a page there is the index just if the root has a child Block. -/
theorem indexPath_mem_iff (page : String) :
    w.indexPath ∈ (w.childFiles page t t.independents ++
      w.indexFile (unique ([t].flatMap (w.useLines .root)))).map GeneratedFile.path ↔ t.independents ≠ [] := by
  rw [List.map_append, indexFile_paths]
  constructor
  · intro hmem hnone
    rw [if_neg fun h => hasIndex_page_iff.mp h hnone, hnone] at hmem
    cases hmem
  · intro hsome
    rw [if_pos (hasIndex_page_iff.mpr hsome)]
    exact List.mem_append_right _ (List.mem_singleton_self _)

theorem any_independent_iff (ht : w.conventions.TreeCoherent t) :
    t.ordered.any (·.independent) = true ↔ t.independents ≠ [] := by
  rw [ht.root.independents_eq, Ne, List.filter_eq_nil_iff, List.any_eq_true]
  simp

/-- The writer and the generator agree. -/
theorem besideIndex_iff (hroots : selectRoots (Document.read mode html) = .ok roots)
    (hq : q ∈ w.sheets mode html) :
    w.BesideIndex mode (w.filesFor mode (w.rootTrees mode roots)) q ↔
      q.node.isRoot = true ∧ q.node.ordered.any (·.independent) = true := by
  obtain ⟨t, ht, hq⟩ := (mem_sheets hroots).mp hq
  have hsheet := sheetOf_of_mem ht hq
  rcases mem_rootSheets hq with rfl | ⟨p, hp, hbelow, -⟩
  · cases mode with
    | selection =>
      -- no root of a selection is marked
      refine iff_of_false (fun h => by cases h.1) fun h => ?_
      cases (hsheet.isRoot.mp h.1).1
    | root =>
      have htrees : w.rootTrees .root roots = [t] :=
        rootTrees_eq_singleton (exists_root_of_page hroots rfl) ht
      have hfiles : w.filesFor .root [t] = w.fileOf .root (rootSheet .root t) ::
          (w.childFiles (w.rootFile t.base) t t.independents ++
            w.indexFile (unique ([t].flatMap (w.useLines .root)))) := by
        rw [filesFor, List.flatMap_singleton]
        rfl
      have hany : (rootSheet .root t).node.ordered.any (·.independent) = true ↔ t.independents ≠ [] :=
        any_independent_iff hsheet.coherent
      have hroot : (rootSheet .root t).node.isRoot = true := hsheet.isRoot.mpr ⟨rfl, rfl⟩
      rw [hany, htrees, hfiles, and_iff_right hroot, ← indexPath_mem_iff (w := w) (w.rootFile t.base)]
      constructor
      · rintro ⟨-, -, others, heq, hmem⟩
        rw [(List.cons.inj heq).2]
        exact hmem
      · intro hmem
        exact ⟨rfl, rfl, _, rfl, hmem⟩
  · -- below a root no node is marked, and none is without a Block above
    have hchild := isRoot_of_below hsheet (sheetOf_of_mem ht hp) hbelow
    refine iff_of_false (fun h => ?_) fun h => ?_
    · have hparent : q.parent = none := h.2.1
      rw [hbelow.parent] at hparent
      cases hparent
    · rw [hchild] at h
      cases h.1

/-- An index has lines that use stylesheets, and none is like the line that loads. -/
theorem noneLoads_index {trees : List Component} {f : GeneratedFile}
    (hf : f ∈ w.indexFile (unique (trees.flatMap (w.useLines mode)))) :
    f.path = w.indexPath ∧ ∃ uses : List String, f.content = "\n".intercalate uses ++ "\n" ∧
      (∀ l ∈ uses, ∃ b, l = useLine b) ∧ w.NoneLoads uses := by
  unfold indexFile at hf
  split at hf
  · cases hf
  · rw [List.mem_singleton.mp hf]
    have huse : ∀ l ∈ unique (trees.flatMap (w.useLines mode)), ∃ b, l = useLine b := by
      intro l hl
      obtain ⟨p, -, -, rfl⟩ := mem_uses.mp hl
      exact ⟨_, rfl⟩
    refine ⟨rfl, _, rfl, huse, noneLoads_of_unloading fun l hl => ?_⟩
    obtain ⟨b, rfl⟩ := huse l hl
    rw [useLine, String.append_assoc]
    exact unloading_use _

/-- The line that loads the styles of child Blocks is put into the file of a page if the index is among
the other files, and it is put there once. It is put into no other file. -/
theorem loadLine_mem_iff (h : w.generate mode html = .ok files) :
    ∃ index, files = (w.sheets mode html).map (w.fileOf mode) ++ index ∧
      (∀ s ∈ w.sheets mode html,
        (w.fileOf mode s).content = "\n".intercalate (w.fileLines s) ∧
        ((∃ level, w.loadLine level ∈ w.fileLines s) ↔ w.BesideIndex mode files s) ∧
        (w.BesideIndex mode files s → w.OneLoads (w.fileLines s))) ∧
      ∀ f ∈ index, f.path = w.indexPath ∧
        ∃ uses : List String, f.content = "\n".intercalate uses ++ "\n" ∧
          (∀ l ∈ uses, ∃ b, l = useLine b) ∧ w.NoneLoads uses := by
  obtain ⟨roots, hroots, rfl⟩ := exists_roots_of_generate h
  refine ⟨w.indexFile (unique ((w.rootTrees mode roots).flatMap (w.useLines mode))), ?_, fun s hs => ?_,
    fun f hf => noneLoads_index hf⟩
  · rw [filesFor, flatMap_rootFiles_eq, sheets_eq hroots]
  · have hloads := loads_of_sheet (w := w) s
    rw [besideIndex_iff hroots hs, ← Bool.and_eq_true_iff]
    refine ⟨content_fileOf mode s, ?_, ?_⟩
    · constructor
      · rintro ⟨level, hmem⟩
        by_contra hnot
        rw [if_neg hnot] at hloads
        exact hloads _ hmem level rfl
      · intro hneeded
        rw [if_pos hneeded] at hloads
        obtain ⟨before, after, hlines, -, -⟩ := hloads
        exact ⟨1, hlines ▸ List.mem_append_right before List.mem_cons_self⟩
    · intro hneeded
      rwa [if_pos hneeded] at hloads

/-- On a page with a Block in an Element and another one right below the root, the file of the page
loads the latter, and the file of that Block loads nothing. -/
theorem loadLine_mem_on_page :
    let w : StylesheetWriter := ⟨{}, {}⟩
    let html := "<p class=a-b><i class=x><b class=c-d></b></i><b class=e-f></b></p>".toList
    ∃ files, w.generate .root html = .ok files ∧
      ∃ page child, w.sheets .root html = [page, child] ∧ w.OneLoads (w.fileLines page) ∧
        ¬ ∃ level, w.loadLine level ∈ w.fileLines child := by
  intro w html
  have hcomputed : ((selectRoots (Document.read .root html)).map fun roots =>
      (((w.rootTrees .root roots).flatMap (w.rootSheets .root)).map fun s => s.parent.isNone,
        (w.filesFor .root (w.rootTrees .root roots)).map GeneratedFile.path)) =
      .ok ([true, false], ["a-b.scss", "scss/e-f.scss", "scss/index.scss"]) := by decide +kernel
  obtain ⟨roots, hroots, hcomputed⟩ := map_eq_ok.mp hcomputed
  rw [← sheets_eq hroots] at hcomputed
  obtain ⟨hparents, hpaths⟩ := Prod.mk.inj hcomputed
  obtain ⟨page, rest, hsheets, hpage, hrest⟩ := List.map_eq_cons_iff.mp hparents
  obtain ⟨child, rest, rfl, hchild, hrest⟩ := List.map_eq_cons_iff.mp hrest
  obtain rfl := List.map_eq_nil_iff.mp hrest
  have hfiles := generate_eq (w := w) hroots
  obtain ⟨index, heq, hsheet, -⟩ := loadLine_mem_iff hfiles
  rw [hsheets] at heq hsheet
  have hbeside : w.BesideIndex .root (w.filesFor .root (w.rootTrees .root roots)) page := by
    refine ⟨rfl, by simpa using hpage, _, heq, ?_⟩
    rw [heq] at hpaths
    have hothers := (List.cons.inj hpaths).2
    rw [hothers]
    decide
  refine ⟨_, hfiles, page, child, hsheets, (hsheet page (by simp)).2.2 hbeside, ?_⟩
  rw [(hsheet child (by simp)).2.1]
  rintro ⟨-, hparent, -⟩
  rw [hparent] at hchild
  cases hchild

/-- A page without child Blocks whose file has the path of an index. -/
theorem index_page_loads_nothing :
    ¬ ∀ (w : StylesheetWriter) mode html files, w.generate mode html = .ok files →
      ∀ s ∈ w.sheets mode html, (∃ level, w.loadLine level ∈ w.fileLines s) ↔
        (mode = .root ∧ s.parent = none) ∧ w.indexPath ∈ files.map GeneratedFile.path := by
  intro h
  let naming : NamingOptions := { custom := { block := some ⟨"index", false, .text "index"⟩ } }
  let w : StylesheetWriter := ⟨{ naming }, {}⟩
  let html := "<p class='scss/index'></p>".toList
  have hcomputed : ((selectRoots (Document.read .root html)).map fun roots =>
      (((w.rootTrees .root roots).flatMap (w.rootSheets .root)).map fun s =>
        (s.parent.isNone, s.node.ordered.any (·.independent)),
        (w.filesFor .root (w.rootTrees .root roots)).map GeneratedFile.path)) =
      .ok ([(true, false)], ["scss/index.scss"]) := by decide +kernel
  obtain ⟨roots, hroots, hcomputed⟩ := map_eq_ok.mp hcomputed
  rw [← sheets_eq hroots] at hcomputed
  obtain ⟨hsheets, hpaths⟩ := Prod.mk.inj hcomputed
  obtain ⟨page, rest, hsheets, hpage, -⟩ := List.map_eq_cons_iff.mp hsheets
  obtain ⟨hparent, hblocks⟩ := Prod.mk.inj hpage
  have hmem : page ∈ w.sheets .root html := hsheets ▸ List.mem_cons_self
  have hpath : w.indexPath ∈ (w.filesFor .root (w.rootTrees .root roots)).map GeneratedFile.path := by
    rw [hpaths]
    decide
  obtain ⟨level, hload⟩ := (h w .root html _ (generate_eq hroots) page hmem).mpr
    ⟨⟨rfl, by simpa using hparent⟩, hpath⟩
  -- there is no child Block, so nothing is loaded
  have hloads := loads_of_sheet (w := w) page
  rw [hblocks, Bool.and_false, if_neg Bool.false_ne_true] at hloads
  exact hloads _ hload level rfl

end StylesheetWriter

end BlockMarkup
