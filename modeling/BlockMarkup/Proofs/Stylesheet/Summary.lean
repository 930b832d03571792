import Mathlib
import BlockMarkup.Proofs.Stylesheet.Resolve

/-! # The summary of roots

The summary counts the Blocks among the elements that files are generated for, in a pass of its own over
the first classes of these elements. Generating merges the trees of the elements instead, class by class,
and writes a file for every tree that is left. Both look at the same elements (`summaryRoots_eq`) and keep
the first of equal classes (`rootTrees_bases`), so the summary tells which root files there are, in their
order, and its counts add up to the number of elements that gave rise to them (`summary_of_generate`).
-/

namespace BlockMarkup

open Markup (Node RootMode Document)
open Component (base)

/-- Every item is counted with the one of its occurrences that is kept. -/
theorem sum_map_count_unique {α : Type} [DecidableEq α] (xs : List α) :
    ((unique xs).map xs.count).sum = xs.length := by
  have hperm : (unique xs).Perm xs.dedup := by
    rw [List.perm_ext_iff_of_nodup (unique_nodup xs) (List.nodup_dedup xs)]
    intro x
    rw [mem_unique, List.mem_dedup]
  rw [(hperm.map xs.count).sum_eq]
  exact List.sum_map_count_dedup_eq_length xs

namespace StylesheetWriter

variable {w : StylesheetWriter} {mode : RootMode} {html : List Char} {files : List GeneratedFile}
  {roots : List Node} {d : Document} {x : Component} {s : Sheet}

/-! ## The elements that are counted -/

/-- The first classes of some elements. -/
def firstClasses (roots : List Node) : List String := roots.filterMap fun n => n.classTokens.head?

/-- The summary looks at the elements that files are generated for. -/
theorem summaryRoots_eq (h : selectRoots d = .ok roots) : summaryRoots d = roots := by
  unfold selectRoots at h
  unfold summaryRoots
  cases hmode : d.mode with
  | selection =>
    rw [hmode] at h
    simp only at h ⊢
    split at h
    · cases h
    · exact Except.ok.inj h
  | root =>
    rw [hmode] at h
    simp only at h ⊢
    split at h
    · cases h
    · split at h
      · cases h
      · rename_i n hnode
        rw [hnode]
        split at h
        · rename_i hclass
          rw [Option.filter_some, if_pos hclass]
          exact Except.ok.inj h
        · cases h

/-- The classes of the trees of Blocks are the Blocks among the first classes. -/
theorem blockTrees_bases (roots : List Node) :
    (w.blockTrees roots).map base = (firstClasses roots).filter w.conventions.isIndependent := by
  have hkind : ∀ t ∈ roots.filterMap (w.conventions.build 0),
      t.independent = w.conventions.isIndependent t.base := by
    intro t ht
    obtain ⟨n, -, hn⟩ := List.mem_filterMap.mp ht
    exact (Conventions.treeCoherent_of_build 0 n t hn).root.kind
  have hbases : (roots.filterMap (w.conventions.build 0)).map base = firstClasses roots := by
    rw [List.map_filterMap]
    exact List.filterMap_congr fun n _ => w.conventions.map_base_build n
  rw [blockTrees, List.filter_congr hkind, ← hbases, List.filter_map]
  rfl

/-- The root trees have these classes, each of them once. -/
theorem rootTrees_bases (h : mode = .root → ∃ n, roots = [n]) :
    (w.rootTrees mode roots).map base = unique ((w.blockTrees roots).map base) := by
  have hmarked : ∀ isRoot, ((w.blockTrees roots).map (·.withRoot isRoot)).map base =
      (w.blockTrees roots).map base := by
    intro isRoot
    rw [List.map_map]
    exact List.map_congr_left fun t _ => Component.withRoot_base isRoot t
  cases mode with
  | selection =>
    rw [rootTrees, Component.dedup_bases, hmarked false]
  | root =>
    have hbases : (w.rootTrees .root roots).map base = (w.blockTrees roots).map base := hmarked true
    rw [← hbases]
    -- a page has one root at most, so nothing is repeated
    rcases rootTrees_of_page (w := w) (h rfl) with htrees | ⟨t, htrees⟩
    · rw [htrees]
      rfl
    · rw [htrees]
      rfl

/-! ## The files that are counted -/

/-- Of the sheets of a tree only that of the root has no Block above it. -/
theorem filter_rootSheets (x : Component) :
    (w.rootSheets mode x).filter (·.parent.isNone) = [rootSheet mode x] := by
  have hbelow : ∀ s ∈ childSheets (w.rootFile x.base) [x.base] x x.independents,
      ¬ s.parent.isNone = true := by
    intro s hs
    rcases mem_childSheets _ _ _ _ hs with ⟨-, hparent, -, -⟩ | ⟨q, -, hbelow, -⟩
    · rw [hparent]
      exact Bool.false_ne_true
    · rw [hbelow.parent]
      exact Bool.false_ne_true
  rw [rootSheets, List.filter_cons_of_pos rfl, List.filter_eq_nil_iff.mpr hbelow]

theorem filter_sheets (hroots : selectRoots (Document.read mode html) = .ok roots) :
    (w.sheets mode html).filter (·.parent.isNone) = (w.rootTrees mode roots).map (rootSheet mode) := by
  rw [sheets_eq hroots, List.filter_flatMap, List.map_eq_flatMap]
  exact List.flatMap_congr fun x _ => filter_rootSheets x

/-! ## The summary -/

theorem summarize_eq (hroots : selectRoots (Document.read mode html) = .ok roots) :
    w.summarize mode html = (unique ((w.blockTrees roots).map base)).map
      fun b => (b, ((w.blockTrees roots).map base).count b) := by
  rw [summarize, summarizeFor, summaryRoots_eq hroots]

/-- The summary names the Blocks of the root files in the order of the files, none of them twice. It tells
for how many of the elements each is the first class, which is so for one at least, and in all it counts
the elements whose first class is a Block. -/
theorem summary_of_generate (h : w.generate mode html = .ok files) :
    ∃ roots index, selectRoots (Document.read mode html) = .ok roots ∧
      files = (w.sheets mode html).map (w.fileOf mode) ++ index ∧
      (∀ f ∈ index, f.path = w.childPath "index") ∧
      (w.summarize mode html).map Prod.fst =
        ((w.sheets mode html).filter (·.parent.isNone)).map (·.node.base) ∧
      ((w.summarize mode html).map Prod.fst).Nodup ∧
      (∀ q ∈ w.summarize mode html, 1 ≤ q.2 ∧ q.2 = (firstClasses roots).count q.1) ∧
      ((w.summarize mode html).map Prod.snd).sum =
        roots.countP fun n => n.classTokens.head?.any w.conventions.isIndependent := by
  obtain ⟨roots, hroots, -⟩ := exists_roots_of_generate h
  obtain ⟨index, hfiles, hindex⟩ := exists_index_of_generate h
  have hnames : (w.summarize mode html).map Prod.fst = unique ((w.blockTrees roots).map base) := by
    rw [summarize_eq hroots, List.map_map]
    exact List.map_id _
  refine ⟨roots, index, hroots, hfiles, hindex, ?_, ?_, ?_, ?_⟩
  · rw [hnames, filter_sheets hroots, List.map_map, ← rootTrees_bases (exists_root_of_page hroots)]
    rfl
  · rw [hnames]
    exact unique_nodup _
  · intro q hq
    rw [summarize_eq hroots] at hq
    obtain ⟨b, hb, rfl⟩ := List.mem_map.mp hq
    have hmem : b ∈ (w.blockTrees roots).map base := mem_unique.mp hb
    refine ⟨List.count_pos_iff.mpr hmem, ?_⟩
    -- all elements with the class are counted, because the class decides that they are Blocks
    rw [blockTrees_bases] at hmem ⊢
    exact List.count_filter (List.mem_filter.mp hmem).2
  · have hcounts : (w.summarize mode html).map Prod.snd =
        (unique ((w.blockTrees roots).map base)).map ((w.blockTrees roots).map base).count := by
      rw [summarize_eq hroots, List.map_map]
      rfl
    rw [hcounts, sum_map_count_unique, blockTrees_bases, ← List.countP_eq_length_filter, firstClasses,
      List.countP_filterMap]
    refine List.countP_congr fun n _ => ?_
    cases n.classTokens.head? <;> rfl

/-- A selection with an element that is no Block, a Block inside another one, and a Block that comes
twice. -/
theorem summary_of_selection :
    let w : StylesheetWriter := ⟨{}, {}⟩
    let html := "<p class=a-b><i class=c-d></i></p><b class=e-f></b><u class=x></u><b class=a-b></b>".toList
    w.summarize .selection html = [("a-b", 2), ("e-f", 1)] ∧
      ∃ files roots, w.generate .selection html = .ok files ∧
        selectRoots (Document.read .selection html) = .ok roots ∧ roots.length = 4 ∧
        ((w.sheets .selection html).filter (·.parent.isNone)).map (·.node.base) = ["a-b", "e-f"] ∧
        (roots.countP fun n => n.classTokens.head?.any w.conventions.isIndependent) = 3 := by
  intro w html
  have hcomputed : (selectRoots (Document.read .selection html)).map (fun roots => (roots.length,
      (unique ((w.blockTrees roots).map base)).map fun b => (b, ((w.blockTrees roots).map base).count b))) =
      .ok (4, [("a-b", 2), ("e-f", 1)]) := by decide +kernel
  obtain ⟨roots, hroots, hcomputed⟩ := map_eq_ok.mp hcomputed
  obtain ⟨hlength, hsummary⟩ := Prod.mk.inj hcomputed
  rw [← summarize_eq hroots] at hsummary
  obtain ⟨roots', index, hroots', -, -, hnames, -, -, hsum⟩ := summary_of_generate (generate_eq (w := w) hroots)
  obtain rfl : roots = roots' := Except.ok.inj (hroots.symm.trans hroots')
  rw [hsummary] at hnames hsum
  exact ⟨hsummary, _, roots, generate_eq hroots, hroots, hlength, hnames.symm, hsum.symm⟩

end StylesheetWriter

end BlockMarkup
