import BlockMarkup.Proofs.Stylesheet.Bodies

/-! # The shape of a stylesheet

Those who write styles by hand, and tools that check these, look for two marked lines in the file of a
Block: shared styles go below the first, states below the second. `sections_of_fileContent` says what
can be relied on, for trees of any depth, when names and settings are free of braces and line feeds:
rules are nested, the file has one rule, and the marked lines stand in it and in no other, behind the
rules of all variants, Elements and child Blocks.
-/

namespace BlockMarkup

open Text (trimLeft linesOf)
open Braces (code depth rulesAt Nested Quiet StaysAbove)

namespace StylesheetWriter

variable {w : StylesheetWriter} {c x : Component}

/-! ## States -/

theorem head_pathSelector {e : ElementStates} (h : ∀ n ∈ e.path, Plain n) : Head e.pathSelector where
  plain := by
    rw [plain_iff]
    intro ch hch hmem
    rw [ElementStates.pathSelector, String.toList_intercalate] at hmem
    rcases Text.mem_of_mem_intercalate hmem with hmem | ⟨t, ht, hmem⟩
    · rw [List.mem_singleton.mp hmem] at hch
      exact absurd hch (by decide)
    · rw [List.map_map] at ht
      rcases List.mem_map.mp ht with ⟨n, hn, rfl⟩
      exact plain_iff.mp (head_class (h n hn)).plain ch hch hmem
  not_comment := by
    rcases e with ⟨path, selectors⟩
    rw [ElementStates.pathSelector, String.toList_intercalate]
    cases path with
    | nil => rfl
    | cons b rest =>
      cases rest with
      | nil =>
        rw [List.map_singleton, List.map_singleton, List.intercalate_singleton]
        exact (head_class (h b List.mem_cons_self)).not_comment
      | cons b' rest =>
        rw [List.map_cons, List.map_cons, List.map_cons, List.map_cons, List.intercalate_cons_cons,
          String.toList_append]
        rfl

/-- The states of Elements come with plain classes and selectors. -/
theorem head_elementStates (h : w.PlainNames x) : ∀ e ∈ w.elementStates x,
    (∀ n ∈ e.path, Plain n) ∧ ∀ s ∈ e.selectors, Head s := by
  have helement : ∀ y, w.PlainNames y → ∀ path : List String, (∀ n ∈ path, Plain n) →
      ∀ e ∈ w.statesOfElement path y, (∀ n ∈ e.path, Plain n) ∧ ∀ s ∈ e.selectors, Head s := by
    intro y
    induction y using Component.ordered_induction with
    | hstep y ih =>
      intro hy path hpath e he
      have hlonger : ∀ n ∈ path ++ [y.base], Plain n := by
        intro n hn
        rcases List.mem_append.mp hn with hn | hn
        · exact hpath n hn
        · rw [List.mem_singleton.mp hn]
          exact hy.here.base
      rw [statesOfElement_eq] at he
      split at he
      · cases he
      · rcases List.mem_append.mp he with he | he
        · split at he
          · cases he
          · rw [List.mem_singleton.mp he]
            exact ⟨hlonger, head_stateSelectors hy.here⟩
        · rcases List.mem_flatMap.mp he with ⟨z, hz, he⟩
          exact ih z hz (hy.child hz) _ hlonger e he
  intro e he
  rw [elementStates, statesOfElements_eq] at he
  rcases List.mem_flatMap.mp he with ⟨y, hy, he⟩
  exact helement y (h.child hy) [] (by simp) e he

theorem paragraphs_stateLines {s : String} (hs : Head s) (level : Nat) :
    Paragraphs (stateLines level s) [opening level s] :=
  .rule hs level (.note (s := "// state styles") (by decide) (level + 1))

theorem paragraphs_elementStateLines {e : ElementStates} (hpath : ∀ n ∈ e.path, Plain n)
    (hselectors : ∀ s ∈ e.selectors, Head s) (level : Nat) :
    Paragraphs (elementStateLines level e) [opening level e.pathSelector] :=
  .rule (head_pathSelector hpath) level
    (Paragraphs.flatMap fun s hs => paragraphs_stateLines (hselectors s hs) (level + 1)).part

/-- What stands below the second marked line: at most one rule, for the states. -/
theorem sectionLines_eq (h : w.PlainNames c) (level : Nat) :
    ∃ states rules, w.sectionLines level c =
        ["", line level sharedMarker, "", line level interactionMarker] ++ states ∧
      Paragraphs states rules ∧ states ≠ [] ∧ rules ⊆ [opening level "@at-root &"] := by
  have hnone : Paragraphs [line level "// @at-root & \x7b", line level "// \x7d", ""] [] :=
    .of_part (a := [line level "// @at-root & \x7b"])
      (.append (.note (by decide) level) (.note (by decide) level)) (.line (by decide) level)
  have hstates : Part ((w.stateSelectors c).flatMap (stateLines (level + 1))) _ :=
    (Paragraphs.flatMap fun s hs =>
      paragraphs_stateLines (head_stateSelectors h.here s hs) (level + 1)).part
  have helements : Part ((w.elementStates c).flatMap (elementStateLines (level + 1))) _ :=
    (Paragraphs.flatMap fun e he => paragraphs_elementStateLines
      (head_elementStates h e he).1 (head_elementStates h e he).2 (level + 1)).part
  have hsome : Paragraphs _ [opening level "@at-root &"] :=
    .rule ⟨by decide, rfl⟩ level (hstates.append helements)
  unfold sectionLines
  split
  · exact ⟨_, [], rfl, hnone, List.cons_ne_nil _ _, List.nil_subset _⟩
  · exact ⟨_, _, rfl, hsome, List.cons_ne_nil _ _, List.Subset.refl _⟩

/-! ## Files -/

/-- The lines before the rule of a file. -/
def headerLines (w : StylesheetWriter) (c : Component) (parent : Option Component) (hint : String)
    (rootFile : Option String) : List String :=
  if c.isRoot then
    ["@use \"" ++ w.options.globalModule ++ "\" as *;", "@use \"sass:meta\";", "",
      "// " ++ (w.options.pageEntryPrefix ++ "/" ++ hint), ""]
  else
    ["@use \"" ++ w.options.globalModule ++ "\" as *;", "",
      "// @rel/" ++ w.parentLink parent (rootFile.filter (· != "")) ++ ".scss", ""]

theorem fileContent_eq (w : StylesheetWriter) (c : Component) (parent : Option Component)
    (hint : String) (rootFile : Option String) :
    w.fileContent c parent hint rootFile = "\n".intercalate (w.headerLines c parent hint rootFile ++
      [opening 0 ("." ++ c.base), w.blockBody 1 c.isRoot c, closing 0, ""]) := by
  rw [← String.toList_inj, Text.toList_intercalate, fileContent, header, headerLines]
  split
  · simp [Text.joined, opening, closing, line, indent]
  · simp [Text.joined, opening, closing, line, indent]

/-- The comment that names the page. Behind its two slashes stands a third one, which no marked line
has. -/
theorem still_page {directory hint : String} (hdirectory : '\n' ∉ directory.toList)
    (hhint : '\n' ∉ hint.toList) : Still ("// " ++ (directory ++ "/" ++ hint)) := by
  have hmarked : '/' ∉ sharedMarker.toList.drop 3 ∧ '/' ∉ interactionMarker.toList.drop 3 := by
    decide
  have hslash : ∀ marker : String, '/' ∉ marker.toList.drop 3 →
      trimLeft ("// " ++ (directory ++ "/" ++ hint)).toList ≠ marker.toList := by
    intro marker hmarker he
    rw [← he, String.toList_append] at hmarker
    apply hmarker
    show '/' ∈ (directory ++ "/" ++ hint).toList
    simp
  refine ⟨by simp [hdirectory, hhint], Or.inl ?_, hslash _ hmarked.1, hslash _ hmarked.2⟩
  rw [String.toList_append]
  rfl

theorem still_headerLines (h : w.PlainNames c) {parent : Option Component} {hint : String}
    {rootFile : Option String} (hparent : ∀ p ∈ parent, '\n' ∉ p.base.toList)
    (hhint : '\n' ∉ hint.toList) (hroot : ∀ f ∈ rootFile, '\n' ∉ f.toList) :
    ∀ s ∈ w.headerLines c parent hint rootFile, Still s := by
  have huse : Still ("@use \"" ++ w.options.globalModule ++ "\" as *;") :=
    still_of_plain (.append (.append (by decide) h.globalModule) (by decide)) (by simp)
  have hmeta : Still "@use \"sass:meta\";" := still_of_plain (by decide) (by decide)
  have hpage : Still ("// " ++ (w.options.pageEntryPrefix ++ "/" ++ hint)) :=
    still_page h.pageEntryPrefix.1 hhint
  have hlink : '\n' ∉ (w.parentLink parent (rootFile.filter (· != ""))).toList := by
    cases parent with
    | none =>
      rw [parentLink]
      decide
    | some p =>
      have hfile : ∀ case, '\n' ∉ (FileName.format p.base case).toList :=
        newline_notMem_format (hparent p rfl)
      cases hf : rootFile.filter (· != "") with
      | some file =>
        have hfile := hroot file (Option.filter_eq_some_iff.mp hf).1
        rw [parentLink]
        simpa using hfile
      | none =>
        rw [parentLink]
        split
        · simpa using hfile w.options.rootFileCase
        · exact hfile w.options.childFileCase
  intro s hs
  unfold headerLines at hs
  split at hs
  · simp only [List.mem_cons, List.not_mem_nil, or_false] at hs
    rcases hs with rfl | rfl | rfl | rfl | rfl
    · exact huse
    · exact hmeta
    · exact still_empty
    · exact hpage
    · exact still_empty
  · simp only [List.mem_cons, List.not_mem_nil, or_false] at hs
    rcases hs with rfl | rfl | rfl | rfl
    · exact huse
    · exact still_empty
    · exact (note_rel hlink).still
    · exact still_empty

/-- The lines of a Block: those of its body, the two marked lines, and those for states. -/
theorem linesOf_blockBody (hblock : c.independent = true) (h : w.PlainNames c) (level : Nat)
    (asRoot : Bool) : ∃ (states : List (List Char)) (rules : List String),
      linesOf (w.blockBody level asRoot c).toList = linesOfAll (w.bodyLines level asRoot c) ++
        [[], (line level sharedMarker).toList, [], (line level interactionMarker).toList] ++ states ∧
      Nested states (rules.map String.toList) ∧ (∀ l ∈ states, Unmarked l) ∧
      rules ⊆ [opening level "@at-root &"] := by
  rcases sectionLines_eq h level with ⟨texts, rules, hsections, hstates, hne, hrules⟩
  have htrailing := hstates.trailing.resolve_left hne
  have hlines := htrailing.linesOfAll_eq
  have hmarked : linesOfAll ["", line level sharedMarker, "", line level interactionMarker] =
      [[], (line level sharedMarker).toList, [], (line level interactionMarker).toList] := by
    have honeLine : ∀ s ∈ ["", line level sharedMarker, "", line level interactionMarker],
        linesOf s.toList = [s.toList] := by
      intro s hs
      apply Text.linesOf_of_notMem
      simp only [List.mem_cons, List.not_mem_nil, or_false] at hs
      rcases hs with rfl | rfl | rfl | rfl
      · decide
      · rw [mem_line (by decide)]
        decide
      · decide
      · rw [mem_line (by decide)]
        decide
    rw [linesOfAll, List.flatMap_congr honeLine, ← List.map_eq_flatMap]
    rfl
  have hbody := (htrailing.append_left (w.bodyLines level asRoot c ++
    ["", line level sharedMarker, "", line level interactionMarker])).linesOfAll_eq
  rw [linesOfAll_append, linesOfAll_append, hmarked, hlines, ← List.append_assoc] at hbody
  refine ⟨linesOf (joinLines texts).toList, rules, ?_, ?_, ?_, hrules⟩
  · rw [blockBody_eq_joinLines, if_pos hblock, hsections, ← List.append_assoc]
    exact (List.append_cancel_right hbody).symm
  · exact .of_append_blank (hlines ▸ hstates.part.nested)
  · intro l hl
    apply hstates.part.unmarked
    rw [hlines]
    exact List.mem_append_left _ hl

/-- What can be relied on in the file of a Block. The rule of the Block has the selector `selector`,
and `rules` are the selectors of the rules right in it that are not for states. -/
structure Sectioned (lines : List (List Char)) (selector : String) (rules : List String) : Prop where
  /-- No rule is closed that is not open. -/
  above : StaysAbove 0 (code lines)
  /-- Every rule is closed. -/
  closed : depth (code lines) = 0
  /-- There is one rule that stands in no other. -/
  one_rule : rulesAt 0 0 lines = [(opening 0 selector).toList]
  /-- Each marked line is there once and stands right in that rule, behind the rules that are not for
  states. -/
  sections : ∃ before between after : List (List Char),
    lines = before ++ (line 1 sharedMarker).toList :: between ++
      (line 1 interactionMarker).toList :: after ∧
    (∀ l ∈ before ++ between ++ after, Unmarked l) ∧
    depth (code before) = 1 ∧
    depth (code (before ++ (line 1 sharedMarker).toList :: between)) = 1 ∧
    rulesAt 1 0 before = (rules.map (opening 1)).map String.toList ∧
    rulesAt 1 1 (between ++ (line 1 interactionMarker).toList :: after) ⊆
      [(opening 1 "@at-root &").toList]

/-- A rule around nested lines, the marked lines and nested lines again. -/
theorem sectioned_of_nested {header body states rules' : List (List Char)} {selector : String}
    {rules : List String} (hselector : Head selector)
    (hheader : ∀ l ∈ header, Quiet l ∧ Unmarked l)
    (hbody : Nested body ((rules.map (opening 1)).map String.toList))
    (hbody' : ∀ l ∈ body, Unmarked l) (hstates : Nested states rules')
    (hstates' : ∀ l ∈ states, Unmarked l) (hrules : rules' ⊆ [(opening 1 "@at-root &").toList]) :
    Sectioned (header ++ ((opening 0 selector).toList ::
        (body ++ [[], (line 1 sharedMarker).toList, [], (line 1 interactionMarker).toList] ++ states) ++
        [(closing 0).toList]) ++ [[]]) selector rules := by
  have hopen := hselector.opens 0
  have hclose := closes_closing 0
  have hfront : Nested header [] := .of_quiet fun l hl => (hheader l hl).1
  have hmarked : ∀ l ∈ [[], (line 1 sharedMarker).toList, [], (line 1 interactionMarker).toList],
      Quiet l := by decide
  have hall := (hfront.append
    (((hbody.append (.of_quiet hmarked)).append hstates).rule hopen hclose)).append (.quiet .nil)
  have hblank := hbody.append (.quiet .nil)
  -- the first marked line is inside the rule, one level deep
  have hbefore : depth (code (header ++ ([(opening 0 selector).toList] ++ (body ++ [[]])))) = 1 := by
    rw [Braces.code_append, Braces.code_append, Braces.depth_append, Braces.depth_append,
      hfront.closed, hopen.depth_eq, hblank.closed]
    rfl
  have hend : ∀ d, rulesAt 1 d ([(closing 0).toList] ++ [[]]) = [] := by
    intro d
    rw [Braces.rulesAt_append, Braces.Closes.rulesAt_eq hclose, Quiet.nil.rulesAt_eq]
    rfl
  have hquiet : ∀ l ∈ [[], (line 1 interactionMarker).toList], Quiet l := by decide
  refine ⟨hall.above, hall.closed, by simpa using hall.rules_eq 0, ?_⟩
  refine ⟨header ++ ([(opening 0 selector).toList] ++ (body ++ [[]])), [[]],
    states ++ ([(closing 0).toList] ++ [[]]), by simp, ?_, hbefore, ?_, ?_, ?_⟩
  · intro l hl
    simp only [List.mem_append, List.mem_singleton] at hl
    rcases hl with ((hl | rfl | hl | rfl) | rfl) | hl | rfl | rfl
    · exact (hheader l hl).2
    · exact unmarked_opening 0 selector
    · exact hbody' l hl
    · exact still_empty.unmarked
    · exact still_empty.unmarked
    · exact hstates' l hl
    · exact unmarked_closing 0
    · exact still_empty.unmarked
  · rw [Braces.code_append, Braces.depth_append, hbefore]
    rfl
  · rw [Braces.rulesAt_append, Braces.rulesAt_append, Quiet.rulesAt_all fun l hl => (hheader l hl).1,
      Braces.Opens.rulesAt_eq hopen, hfront.closed, hopen.depth_eq]
    exact (hblank.rules_eq 1).trans (List.append_nil _)
  · -- behind the first marked line there are no other rules than those for states
    have hsplit : [[]] ++ (line 1 interactionMarker).toList ::
        (states ++ ([(closing 0).toList] ++ [[]])) =
        [[], (line 1 interactionMarker).toList] ++ (states ++ ([(closing 0).toList] ++ [[]])) := rfl
    rw [hsplit, Braces.rulesAt_append, Quiet.rulesAt_all hquiet, (Nested.of_quiet hquiet).closed,
      Int.add_zero, Braces.rulesAt_append, hend, hstates.rules_eq, List.append_nil]
    exact hrules

/-- Files are well nested and have their sections, for every Block of whatever tree, when no name and
no setting has a brace or a line feed and no layout mixin is a comment. Of the parent and of the two
file names that comments show (`hint`, the entry file of the page, and `rootFile`) it is enough that
they stay on their line. -/
theorem sections_of_fileContent (hblock : c.independent = true) (h : w.PlainNames c)
    {parent : Option Component} {hint : String} {rootFile : Option String}
    (hparent : ∀ p ∈ parent, '\n' ∉ p.base.toList) (hhint : '\n' ∉ hint.toList)
    (hroot : ∀ f ∈ rootFile, '\n' ∉ f.toList) :
    Sectioned (linesOf (w.fileContent c parent hint rootFile).toList) ("." ++ c.base)
      (w.bodyRules c) := by
  rcases linesOf_blockBody hblock h 1 c.isRoot with ⟨states, rules, hlines, hstates, hunmarked, hrules⟩
  have hheader := still_headerLines h hparent hhint hroot
  have hbody := (paragraphs_bodyLines h 1 c.isRoot).part
  have hselector : Head ("." ++ c.base) := head_append (by decide) h.here.base rfl
  have hrest : linesOfAll [opening 0 ("." ++ c.base), w.blockBody 1 c.isRoot c, closing 0, ""] =
      (opening 0 ("." ++ c.base)).toList :: linesOf (w.blockBody 1 c.isRoot c).toList ++
        [(closing 0).toList] ++ [[]] := by
    have hsplit : [opening 0 ("." ++ c.base), w.blockBody 1 c.isRoot c, closing 0, ""] =
        [opening 0 ("." ++ c.base)] ++ [w.blockBody 1 c.isRoot c] ++ [closing 0] ++ [""] := rfl
    rw [hsplit, linesOfAll_append, linesOfAll_append, linesOfAll_append,
      linesOfAll_singleton (newline_notMem_opening hselector 0), linesOfAll_text,
      linesOfAll_singleton (newline_notMem_closing 0), linesOfAll_text]
    rfl
  have hfront : ∀ l ∈ linesOfAll (w.headerLines c parent hint rootFile), Quiet l ∧ Unmarked l := by
    rw [linesOfAll_of_still hheader]
    intro l hl
    rcases List.mem_map.mp hl with ⟨s, hs, rfl⟩
    exact ⟨(hheader s hs).quiet, (hheader s hs).unmarked⟩
  rw [fileContent_eq, Text.linesOf_intercalate_flatMap (by simp), ← linesOfAll, linesOfAll_append, hrest,
    hlines]
  have hall := sectioned_of_nested hselector hfront hbody.nested hbody.unmarked hstates hunmarked
    (List.map_subset String.toList hrules)
  simpa using hall

/-- The file of a Block with a variant, an Element with a state, and a child Block. -/
theorem sections_of_user_card :
    let w : StylesheetWriter := ⟨{}, {}⟩
    let title : Component :=
      .mk "title" false [] [] [⟨"data-state", "open"⟩] [] [] [] "h2" false false
    let list : Component := .mk "item-list" true [] [] [] [] [] [] "ul" false false
    let card : Component :=
      .mk "user-card" true [] [⟨"data-variant", "dark"⟩] [] [title] [list] [title, list] "div" true
        false
    w.bodyRules card = ["@include breakpoint-up(md)", "&[data-variant=\"dark\"]", "> .title",
        "> .item-list"] ∧
      Sectioned (linesOf (w.fileContent card none "user-card.scss" none).toList) ".user-card"
        (w.bodyRules card) := by
  intro w title list card
  have hnodes : ∀ y, y.IsNodeOf card → PlainNode y := by
    have htitle : ∀ y, y.IsNodeOf title → PlainNode y :=
      Component.forall_isNodeOf_iff.mpr
        ⟨⟨by decide, by decide, by decide⟩, fun z hz => absurd hz List.not_mem_nil⟩
    have hlist : ∀ y, y.IsNodeOf list → PlainNode y :=
      Component.forall_isNodeOf_iff.mpr
        ⟨⟨by decide, by decide, by decide⟩, fun z hz => absurd hz List.not_mem_nil⟩
    refine Component.forall_isNodeOf_iff.mpr ⟨⟨by decide, by decide, by decide⟩, ?_⟩
    intro z hz
    have hz : z ∈ [title, list, title, list] := hz
    simp only [List.mem_cons, List.not_mem_nil, or_false] at hz
    rcases hz with rfl | rfl | rfl | rfl
    · exact htitle
    · exact hlist
    · exact htitle
    · exact hlist
  have hmixins : ∀ m ∈ w.options.layoutMixins, Head m := by
    intro m hm
    rw [List.mem_singleton.mp hm]
    exact ⟨by decide, by decide⟩
  exact ⟨by decide +kernel, sections_of_fileContent rfl
    ⟨by decide, by decide, by decide, hmixins, hnodes⟩ (by simp) (by decide) (by simp)⟩

end StylesheetWriter

end BlockMarkup
