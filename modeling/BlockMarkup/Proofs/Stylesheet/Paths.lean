import BlockMarkup.Proofs.Result
import BlockMarkup.Proofs.Stylesheet.Trees

/-! # When no two files have the same path

One file is generated for every chain of Blocks, but its path depends on the last class of the
chain alone, unless the chain is that of a root. So a Block under two different Blocks has two
files with one path, and a Block may take the path of the index. Nothing else makes paths clash.
-/

namespace BlockMarkup.StylesheetWriter

open Markup (Node RootMode Document)
open Component (base blockPathsIn)

variable {w : StylesheetWriter} {mode : RootMode} {html : List Char} {files : List GeneratedFile}

/-- The classes, all of them Blocks, are the chain of an element of the document. -/
def BlockChain (w : StylesheetWriter) (mode : RootMode) (html : List Char)
    (chain : List String) : Prop :=
  w.conventions.AllBlocks chain ∧
    ∃ roots, selectRoots (Document.read mode html) = .ok roots ∧
      ∃ n ∈ roots, ∃ r ∈ n.routes, r.Reached 0 ∧ r.chain = chain

theorem generate_eq {roots : List Node}
    (hroots : selectRoots (Document.read mode html) = .ok roots) :
    w.generate mode html = .ok (w.filesFor mode (w.rootTrees mode roots)) := by
  rw [generate, generateFor, hroots, Document.mode_of_read]
  rfl

theorem exists_roots_of_generate (h : w.generate mode html = .ok files) :
    ∃ roots, selectRoots (Document.read mode html) = .ok roots ∧
      files = w.filesFor mode (w.rootTrees mode roots) := by
  cases hroots : selectRoots (Document.read mode html) with
  | error e =>
    rw [generate, generateFor, hroots] at h
    cases h
  | ok roots =>
    rw [generate_eq hroots] at h
    cases h
    exact ⟨roots, rfl, rfl⟩

/-- The chains for which there are files are those of the document. -/
theorem mem_blockChains {roots : List Node}
    (hroots : selectRoots (Document.read mode html) = .ok roots) {chain : List String} :
    chain ∈ (blockPathsIn (w.rootTrees mode roots)).map Prod.fst ↔
      w.BlockChain mode html chain := by
  rw [Conventions.mem_blockPathsIn_chains (fun t ht => (rootTrees_spec t ht).1)
    (fun t ht => (rootTrees_spec t ht).2), mem_rootTrees_chains, BlockChain]
  refine and_congr_right fun hall => ?_
  constructor
  · rintro ⟨t, ht, hchain⟩
    rcases mem_blockTrees.mp ht with ⟨⟨n, hn, hbuild⟩, _⟩
    exact ⟨roots, hroots, n, hn, (Conventions.mem_chains_iff hbuild).mp hchain⟩
  · rintro ⟨roots', hroots', n, hn, hroute⟩
    obtain rfl : roots = roots' := Except.ok.inj (hroots.symm.trans hroots')
    obtain ⟨t, hbuild⟩ := Conventions.exists_build (c := w.conventions)
      ((selectRoots_spec hroots).1 n hn)
    have hchain := (Conventions.mem_chains_iff hbuild).mpr hroute
    refine ⟨t, mem_blockTrees.mpr ⟨⟨n, hn, hbuild⟩, ?_⟩, hchain⟩
    -- the root is the first class of the chain, so it is a Block
    rcases List.mem_map.mp hchain with ⟨p, hp, rfl⟩
    have hbase : t.base ∈ p.1 := Component.base_mem_of_mem_paths hp
    rw [(Conventions.treeCoherent_of_build 0 n t hbuild).root.kind]
    exact hall t.base hbase

theorem blockChains_nodup {roots : List Node}
    (hroots : selectRoots (Document.read mode html) = .ok roots) :
    ((blockPathsIn (w.rootTrees mode roots)).map Prod.fst).Nodup := by
  exact Conventions.blockPathsIn_chains_nodup (fun t ht => (rootTrees_spec t ht).1)
    (fun t ht => (rootTrees_spec t ht).2) (rootTrees_bases_nodup (exists_root_of_page hroots))

/-- If there is any file, there is an index just of a selection or if a root has a Block below
it. -/
theorem hasIndex_iff {roots : List Node}
    (hroots : selectRoots (Document.read mode html) = .ok roots) {p : List String}
    (hp : w.BlockChain mode html p) :
    HasIndex mode (w.rootTrees mode roots) ↔
      ∃ q, w.BlockChain mode html q ∧ (mode = .selection ∨ 1 < q.length) := by
  have hne : w.rootTrees mode roots ≠ [] := by
    intro hnil
    have := (mem_blockChains hroots).mpr hp
    simp [hnil, Component.blockPathsIn] at this
  constructor
  · rintro (⟨hmode, _⟩ | ⟨q, hq, hlen⟩)
    · exact ⟨p, hp, Or.inl hmode⟩
    · exact ⟨q.1, (mem_blockChains hroots).mp (List.mem_map_of_mem hq), Or.inr hlen⟩
  · rintro ⟨q, hq, hmode | hlen⟩
    · exact Or.inl ⟨hmode, hne⟩
    · rcases List.mem_map.mp ((mem_blockChains hroots).mpr hq) with ⟨q', hq', rfl⟩
      exact Or.inr ⟨q', hq', hlen⟩

/-- The paths of the generated files are pairwise distinct just if no two chains of Blocks are
given one path and none is given that of an index that is written. -/
theorem paths_nodup_iff (h : w.generate mode html = .ok files) :
    (files.map GeneratedFile.path).Nodup ↔
      (∀ p q, w.BlockChain mode html p → w.BlockChain mode html q →
        w.filePath mode p = w.filePath mode q → p = q) ∧
      (∀ p q, w.BlockChain mode html p → w.BlockChain mode html q →
        mode = .selection ∨ 1 < q.length → w.filePath mode p ≠ w.indexPath) := by
  rcases exists_roots_of_generate h with ⟨roots, hroots, rfl⟩
  have hpaths : (w.filesFor mode (w.rootTrees mode roots)).map GeneratedFile.path =
      ((blockPathsIn (w.rootTrees mode roots)).map Prod.fst).map (w.filePath mode) ++
        if HasIndex mode (w.rootTrees mode roots) then [w.indexPath] else [] := by
    rw [filesFor_paths, List.map_map]
    rfl
  -- the chains are distinct, so their paths are just if no two chains share one
  rw [hpaths, List.nodup_append', List.nodup_map_iff_inj_on (blockChains_nodup hroots)]
  simp only [mem_blockChains hroots]
  constructor
  · rintro ⟨hinj, _, hdisjoint⟩
    -- a chain that leads to the path of the index would clash with the index
    refine ⟨fun p q hp hq => hinj p hp q hq, fun p q hp hq hindex he => ?_⟩
    rw [if_pos ((hasIndex_iff hroots hp).mpr ⟨q, hq, hindex⟩)] at hdisjoint
    refine hdisjoint (a := w.indexPath) ?_ (List.mem_singleton_self _)
    exact List.mem_map.mpr ⟨p, (mem_blockChains hroots).mpr hp, he⟩
  · rintro ⟨hinj, hindex⟩
    refine ⟨fun p hp q hq => hinj p q hp hq, ?_, ?_⟩
    · split
      · exact List.nodup_singleton _
      · exact List.nodup_nil
    · intro path hpath hmem
      rcases List.mem_map.mp hpath with ⟨p, hp, rfl⟩
      rw [mem_blockChains hroots] at hp
      split at hmem
      · rename_i hhas
        rcases (hasIndex_iff hroots hp).mp hhas with ⟨q, hq, hcond⟩
        exact hindex p q hp hq hcond (List.mem_singleton.mp hmem)
      · simp at hmem

/-- On a page with two files beside the index, no two chains of Blocks are given one path. -/
theorem paths_apart_on_page :
    let w : StylesheetWriter := ⟨{}, {}⟩
    let html := "<p class=a-b><b class=c-d></b></p>".toList
    ∀ p q, w.BlockChain .root html p → w.BlockChain .root html q →
      w.filePath .root p = w.filePath .root q → p = q := by
  intro w html
  have hpaths : (w.generate .root html).map (fun files => files.map GeneratedFile.path) =
      .ok ["a-b.scss", "scss/c-d.scss", "scss/index.scss"] := by decide +kernel
  rcases map_eq_ok.mp hpaths with ⟨files, hfiles, hpaths⟩
  have hnodup : (files.map GeneratedFile.path).Nodup := by
    rw [hpaths]
    decide
  exact ((paths_nodup_iff hfiles).mp hnodup).1

/-- A Block under two Blocks has two files with one path. -/
theorem paths_clash :
    ¬ ∀ (w : StylesheetWriter) mode html files, w.generate mode html = .ok files →
      (files.map GeneratedFile.path).Nodup := by
  intro h
  let w : StylesheetWriter := ⟨{}, {}⟩
  let html := "<p class=a-b><b class=c-d><i class=e-f></i></b><i class=e-f></i></p>".toList
  have hpaths : (w.generate .root html).map (fun files => files.map GeneratedFile.path) =
      .ok ["a-b.scss", "scss/c-d.scss", "scss/e-f.scss", "scss/e-f.scss", "scss/index.scss"] := by
    decide +kernel
  rcases map_eq_ok.mp hpaths with ⟨files, hfiles, hpaths⟩
  have hnodup := h w .root html files hfiles
  rw [hpaths] at hnodup
  exact absurd hnodup (by decide)

end BlockMarkup.StylesheetWriter
