import Mathlib.Logic.Relation
import BlockMarkup.Proofs.Stylesheet.Alike

/-! # Repeating siblings

A list of alike items in a page has the same stylesheets as one item. `Repeats n n'` says that `n'` is
`n` with copies of children put behind them, anywhere and as often as one likes. In document order the
elements of a copy come after those they are copies of and in the same chains (`echoes_of_repeatStep`),
so no class, no modifier and no attribute is met for the first time in a copy
(`sameStyles_of_echoes`), and the files stay as they are (`filesFor_of_repeats`). Names of classes may
be repeated in the tree of a single element but not in that of several, which is why the trees need
not be equal.
-/

namespace BlockMarkup

open Markup (Node)
open Component (SameStyles)
open Occurrences

namespace Markup.Node

/-- A copy of a child is put somewhere behind it under the same parent, at the top or further
inside. -/
inductive RepeatStep : Node → Node → Prop where
  | copy (name : String) (attributes : Attributes) (before : List Node) (n : Node)
      (between after : List Node) :
      RepeatStep (.element name attributes (before ++ n :: (between ++ after)))
        (.element name attributes (before ++ n :: (between ++ n :: after)))
  | inside (name : String) (attributes : Attributes) (before after : List Node) {n n' : Node} :
      RepeatStep n n' → RepeatStep (.element name attributes (before ++ n :: after))
        (.element name attributes (before ++ n' :: after))

/-- Children are copied, one after the other. -/
def Repeats : Node → Node → Prop := Relation.ReflTransGen RepeatStep

end Markup.Node

open Markup.Node (RepeatStep Repeats)

/-- The elements of a copy are repetitions of elements before them. -/
theorem echoes_of_repeatStep {n n' : Node} (h : RepeatStep n n') :
    ∀ depth, Echoes (bareIn depth [n]) (bareIn depth [n']) := by
  induction h with
  | copy name attributes before n between after =>
    intro depth
    rw [bareIn_element, bareIn_element depth name attributes (before ++ n :: (between ++ n :: after))]
    refine Echoes.append_left _ (Echoes.map _ ?_)
    rw [bareIn_middle, bareIn_middle, bareIn_middle, bareIn_append]
    refine ⟨bareIn (depth + 1) before ++ bareIn (depth + 1) [n] ++ bareIn (depth + 1) between,
      bareIn (depth + 1) [n], bareIn (depth + 1) after, by simp, by simp, ?_⟩
    intro p hp
    simp [hp]
  | @inside name attributes before after n n' _ ih =>
    intro depth
    rw [bareIn_element, bareIn_element depth name attributes (before ++ n' :: after)]
    refine Echoes.append_left _ (Echoes.map _ ?_)
    rw [bareIn_middle, bareIn_middle]
    exact ((ih (depth + 1)).append_left _).append_right _

theorem classTokens_of_repeatStep {n n' : Node} (h : RepeatStep n n') :
    n.classTokens = n'.classTokens := by
  cases h with
  | copy => rfl
  | inside => rfl

namespace Conventions

variable {c : Conventions} {es es' : List Node} {x y : Component}

/-- Nodes that are made from elements and from repetitions of them look the same. -/
theorem sameStyles_of_echoes (h : Echoes es es') (hbase : x.base = y.base)
    (hroot : x.isRoot = y.isRoot) (hx : c.Made es x) (hy : c.Made es' y) : SameStyles x y where
  base := hbase
  independent := by rw [hx.independent, hy.independent, hbase]
  isRoot := hroot
  modifiers := by
    rw [hx.modifiers, hy.modifiers, unique_modifiersFrom, unique_modifiersFrom]
    exact (h.flatMap _).unique_eq
  variants := by
    rw [hx.variants, hy.variants]
    exact (h.flatMap _).uniqueBy_eq _
  states := by
    rw [hx.states, hy.states]
    exact (h.flatMap _).uniqueBy_eq _

end Conventions

namespace StylesheetWriter

/-- One copy more does not change the files. -/
theorem filesFor_of_repeatStep (w : StylesheetWriter) {n n' : Node} (h : RepeatStep n n')
    (mode : Markup.RootMode) :
    w.filesFor mode (w.rootTrees mode [n]) = w.filesFor mode (w.rootTrees mode [n']) := by
  have hsame := classTokens_of_repeatStep h
  by_cases hclass : n.classTokens = []
  · -- no tree, and no files
    have hnone : ∀ m : Node, m.classTokens = [] → w.rootTrees mode [m] = [] := by
      intro m hm
      have hbuild : w.conventions.build 0 m = none := by
        have hbase := w.conventions.map_base_build m
        rw [hm] at hbase
        exact Option.map_eq_none_iff.mp hbase
      cases mode <;> simp [rootTrees, blockTrees, hbuild, Component.dedup, Component.dedupWith]
    rw [hnone n hclass, hnone n' (hsame ▸ hclass)]
  · rcases Conventions.exists_build_of_classTokens (c := w.conventions) hclass with ⟨t, ht⟩
    rcases Conventions.exists_build_of_classTokens (c := w.conventions) (hsame ▸ hclass) with
      ⟨t', ht'⟩
    refine filesFor_congr ht ht' ?_ mode
    refine Conventions.corresponds_of_build (E := Echoes) ?_ ?_ ?_ ht ht' hsame
      (echoes_of_repeatStep h 0)
    · exact fun os os' b hE => hE.filterMap _
    · exact fun os os' hE => (hE.filterMap _).unique_eq
    · intro os os' x y hE hbase hroot hx hy
      have hhere : Echoes (here os) (here os') := by
        rw [here, here, ← List.filterMap_eq_filter]
        exact (hE.filterMap _).map _
      exact Conventions.sameStyles_of_echoes hhere hbase hroot hx hy

/-- However often children are copied behind themselves below an element, the files that are generated
for it stay the same, paths and contents. -/
theorem filesFor_of_repeats (w : StylesheetWriter) {n n' : Node} (h : Repeats n n')
    (mode : Markup.RootMode) :
    w.filesFor mode (w.rootTrees mode [n]) = w.filesFor mode (w.rootTrees mode [n']) := by
  induction h with
  | refl => rfl
  | tail _ hstep ih => exact ih.trans (w.filesFor_of_repeatStep hstep mode)

/-- A list with an item and a card below an element without a class: the item is put behind the card
once more, and the note in it behind itself. -/
theorem filesFor_of_repeated_item :
    let w : StylesheetWriter := ⟨{}, {}⟩
    let note : Node := .element "b" [("class", "note")] []
    let card : Node := .element "div" [("class", "item-card")] []
    let item (notes : List Node) : Node :=
      .element "li" [("class", "item -a -a"), ("data-state", "open")] notes
    let page (items : List Node) : Node :=
      .element "ul" [("class", "item-list")] [.element "div" [] items]
    let files (n : Node) := w.filesFor .root (w.rootTrees .root [n])
    Repeats (page [item [note], card]) (page [item [note, note], card, item [note]]) ∧
      (files (page [item [note], card])).map GeneratedFile.path =
        ["item-list.scss", "scss/item-card.scss", "scss/index.scss"] ∧
      files (page [item [note], card]) = files (page [item [note, note], card, item [note]]) := by
  intro w note card item page files
  have htwice : Repeats (page [item [note], card]) (page [item [note], card, item [note]]) :=
    .single (.inside _ _ [] [] (.copy _ _ [] _ [card] []))
  have hrepeats : Repeats (page [item [note], card])
      (page [item [note, note], card, item [note]]) :=
    htwice.tail (.inside _ _ [] [] (.inside _ _ [] [card, item [note]] (.copy _ _ [] note [] [])))
  exact ⟨hrepeats, by decide +kernel, w.filesFor_of_repeats hrepeats .root⟩

end StylesheetWriter

end BlockMarkup
