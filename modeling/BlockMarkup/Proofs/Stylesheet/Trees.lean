import BlockMarkup.Proofs.Stylesheet.Files

/-! # The trees that files are generated for

The elements that are chosen as roots have classes, so each has a tree. The trees of the Blocks
among them are coherent (`rootTrees_spec`), no two have the same class
(`rootTrees_bases_nodup`), and merging them changes no way through them (`mem_rootTrees_chains`).
-/

namespace BlockMarkup

open Markup (Node RootMode Document)
open Component (base)

namespace Component

theorem withRoot_chains (isRoot : Bool) (x : Component) :
    (x.withRoot isRoot).paths.map Prod.fst = x.paths.map Prod.fst := by
  cases x
  simp [withRoot, paths]

@[simp] theorem withRoot_base (isRoot : Bool) (x : Component) : (x.withRoot isRoot).base = x.base := by
  cases x
  rfl

@[simp] theorem withRoot_independent (isRoot : Bool) (x : Component) :
    (x.withRoot isRoot).independent = x.independent := by
  cases x
  rfl

end Component

namespace StylesheetWriter

variable {w : StylesheetWriter} {mode : RootMode} {roots : List Node}

/-- The elements that are chosen have classes, and of a page only one is chosen. -/
theorem selectRoots_spec {d : Document} (h : selectRoots d = .ok roots) :
    (∀ n ∈ roots, n.hasClass = true) ∧ (d.mode = .root → ∃ n, roots = [n]) := by
  rw [selectRoots] at h
  split at h
  · rename_i hmode
    split at h
    · cases h
    · cases h
      refine ⟨fun n hn => Document.hasClass_of_mem_selectionRoots hn, fun hroot => ?_⟩
      rw [hmode] at hroot
      cases hroot
  · split at h
    · cases h
    · split at h
      · cases h
      · split at h
        · rename_i n _ hclass
          cases h
          exact ⟨by simpa using hclass, fun _ => ⟨n, rfl⟩⟩
        · cases h

theorem exists_root_of_page {html : List Char}
    (h : selectRoots (Document.read mode html) = .ok roots) : mode = .root → ∃ n, roots = [n] := by
  have hsingle := (selectRoots_spec h).2
  rwa [Document.mode_of_read] at hsingle

theorem mem_blockTrees {t : Component} :
    t ∈ w.blockTrees roots ↔
      (∃ n ∈ roots, w.conventions.build 0 n = some t) ∧ t.independent = true := by
  simp [blockTrees]

theorem blockTrees_coherent : ∀ t ∈ w.blockTrees roots, w.conventions.TreeCoherent t := by
  intro t ht
  rcases mem_blockTrees.mp ht with ⟨⟨n, _, hn⟩, _⟩
  exact Conventions.treeCoherent_of_build 0 n t hn

/-- Root trees are Blocks and coherent. -/
theorem rootTrees_spec :
    ∀ t ∈ w.rootTrees mode roots, w.conventions.TreeCoherent t ∧ t.independent = true := by
  have hmarked : ∀ isRoot, ∀ t ∈ (w.blockTrees roots).map (·.withRoot isRoot),
      w.conventions.TreeCoherent t ∧ t.independent = true := by
    intro isRoot t ht
    rcases List.mem_map.mp ht with ⟨u, hu, rfl⟩
    exact ⟨(blockTrees_coherent u hu).withRoot isRoot, by simpa using (mem_blockTrees.mp hu).2⟩
  cases mode with
  | root => exact hmarked true
  | selection =>
    refine Component.dedup_induction ?_ (hmarked false)
    rintro a b he ⟨ha, _⟩ ⟨hb, hblock⟩
    exact ⟨ha.merge hb he, by rw [Component.merge_independent, hblock]⟩

/-- A page has one root tree at most. -/
theorem rootTrees_of_page (h : ∃ n, roots = [n]) :
    w.rootTrees .root roots = [] ∨ ∃ t, w.rootTrees .root roots = [t] := by
  rcases h with ⟨n, rfl⟩
  have hlen : (w.rootTrees .root [n]).length ≤ 1 := by
    rw [rootTrees, List.length_map]
    exact Nat.le_trans (List.length_filter_le _ _) (List.length_filterMap_le _ _)
  rcases hxs : w.rootTrees .root [n] with _ | ⟨t, _ | ⟨u, rest⟩⟩
  · exact Or.inl rfl
  · exact Or.inr ⟨t, rfl⟩
  · simp [hxs] at hlen

theorem rootTrees_eq_singleton (h : ∃ n, roots = [n]) {t : Component} (ht : t ∈ w.rootTrees .root roots) :
    w.rootTrees .root roots = [t] := by
  rcases rootTrees_of_page (w := w) h with htrees | ⟨u, htrees⟩
  · rw [htrees] at ht
    cases ht
  · rw [htrees, List.mem_singleton] at ht
    rw [htrees, ht]

/-- No two root trees have the same class. -/
theorem rootTrees_bases_nodup (h : mode = .root → ∃ n, roots = [n]) :
    ((w.rootTrees mode roots).map base).Nodup := by
  cases mode with
  | root =>
    rcases rootTrees_of_page (w := w) (h rfl) with htrees | ⟨t, htrees⟩
    · rw [htrees]
      exact List.nodup_nil
    · rw [htrees]
      exact List.nodup_singleton _
  | selection => exact Component.dedup_bases_nodup _

/-- The ways through the root trees are those through the trees of the Blocks among the roots. -/
theorem mem_rootTrees_chains {chain : List String} :
    (∃ t ∈ w.rootTrees mode roots, chain ∈ t.paths.map Prod.fst) ↔
      ∃ t ∈ w.blockTrees roots, chain ∈ t.paths.map Prod.fst := by
  have hmarked : ∀ isRoot,
      (∃ t ∈ (w.blockTrees roots).map (·.withRoot isRoot), chain ∈ t.paths.map Prod.fst) ↔
        ∃ t ∈ w.blockTrees roots, chain ∈ t.paths.map Prod.fst := by
    intro isRoot
    simp only [List.mem_map (l := w.blockTrees roots), exists_exists_and_eq_and,
      Component.withRoot_chains]
  cases mode with
  | root => exact hmarked true
  | selection =>
    refine Iff.trans ?_ (hmarked false)
    refine GathersAll.mem_chains_dedup (c := w.conventions)
      w.conventions.descriptive_true.merge ?_ ?_
    · intro t ht
      rcases List.mem_map.mp ht with ⟨u, hu, rfl⟩
      rcases mem_blockTrees.mp hu with ⟨⟨n, _, hn⟩, _⟩
      obtain ⟨os, _, hos⟩ :=
        Conventions.gathers_of_build w.conventions.descriptive_true 0 n u hn
      exact ⟨os, hos.withRoot w.conventions.descriptive_true false⟩
    · intro t ht
      rcases List.mem_map.mp ht with ⟨u, hu, rfl⟩
      exact (blockTrees_coherent u hu).withRoot false

end StylesheetWriter

end BlockMarkup
