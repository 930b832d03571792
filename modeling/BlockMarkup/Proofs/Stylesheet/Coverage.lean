import BlockMarkup.Proofs.Lint.Clean
import BlockMarkup.Proofs.Stylesheet.Paths

/-! # Files for documents without issues

For a document that the linter accepts, files are generated, and every Block has one that is
reached without a third-party class (`exists_file_of_accepted`). Blocks below a third-party class
are passed over: the generator goes from Block to Block, and such a class is none. Whether they
find a file at their path all the same is up to other Blocks (`mem_paths_of_accepted`).
-/

namespace BlockMarkup.StylesheetWriter

open Markup (Node RootMode Document)
open Component (base blockPaths blockPathsIn)

variable {w : StylesheetWriter} {mode : RootMode} {html : List Char} {roots : List Node}

/-- The linter accepts the document under the conventions of the writer. -/
def Accepted (w : StylesheetWriter) (mode : RootMode) (html : List Char) : Prop :=
  Lint.run w.conventions mode html = .ok []

/-- A node of a root tree, with the classes on the way to it, that is a Block. -/
def BlockNode (w : StylesheetWriter) (mode : RootMode) (roots : List Node)
    (p : List String × Component) : Prop :=
  (∃ t ∈ w.rootTrees mode roots, p ∈ t.paths) ∧ p.2.independent = true

/-- None of the classes is a third-party class. -/
def NoExternal (w : StylesheetWriter) (chain : List String) : Prop :=
  ∀ b ∈ chain, w.options.external.covers b = false

/-! ## What acceptance says -/

/-- The linter and the generator choose the same roots, if there is no doubt about the root. -/
theorem selectRoots_of_lintRoots {d : Document} {nodes : List Node}
    (hroots : Lint.roots d = .ok nodes) (hambiguity : Lint.ambiguityIssues d = []) :
    selectRoots d = .ok nodes := by
  cases hmode : d.mode with
  | selection =>
    simp only [Lint.roots, hmode] at hroots
    simp only [selectRoots, hmode]
    split at hroots
    · cases hroots
    · rename_i hne
      cases hroots
      rw [if_neg hne]
  | root =>
    have hclear : d.hasAmbiguousRoot = false := by
      simpa [Lint.ambiguityIssues, hmode] using hambiguity
    simp only [Lint.roots, hmode] at hroots
    simp only [selectRoots, hmode]
    rw [if_neg (by simp [hclear])]
    cases hnode : d.rootNode? with
    | none =>
      rw [hnode] at hroots
      cases hroots
    | some n =>
      simp only [hnode] at hroots ⊢
      split at hroots
      · rename_i hclass
        cases hroots
        rw [if_pos hclass]
      · cases hroots

/-- The roots of an accepted document can be chosen, and the trees that are linted are without
issues. -/
theorem roots_of_accepted (h : w.Accepted mode html) :
    ∃ roots, selectRoots (Document.read mode html) = .ok roots ∧
      Lint.treesIssues w.conventions mode [] false (roots.filterMap (w.conventions.build 0)) =
        .ok [] := by
  have hmode := Document.mode_of_read mode html
  rw [Accepted, Lint.run] at h
  generalize Document.read mode html = d at h hmode ⊢
  subst hmode
  rw [Lint.documentIssues] at h
  cases hroots : Lint.roots d with
  | error issue =>
    rw [hroots] at h
    have hnil := Except.ok.inj h
    simp at hnil
  | ok nodes =>
    simp only [hroots] at h
    rcases map_eq_ok.mp h with ⟨found, hfound, hnil⟩
    rw [List.append_eq_nil_iff, List.append_eq_nil_iff] at hnil
    rcases hnil with ⟨⟨_, hambiguity⟩, rfl⟩
    exact ⟨nodes, selectRoots_of_lintRoots hroots hambiguity, hfound⟩

/-- On the way to a node of a root tree of an accepted document, every Block stands under a Block
or under a third-party class. -/
theorem chainClean_of_accepted (hroots : selectRoots (Document.read mode html) = .ok roots)
    (h : w.Accepted mode html) {t : Component} (ht : t ∈ w.rootTrees mode roots)
    {p : List String × Component} (hp : p ∈ t.paths) :
    Lint.ChainClean w.conventions none p.1 := by
  rcases roots_of_accepted h with ⟨roots', hroots', hissues⟩
  obtain rfl : roots = roots' := Except.ok.inj (hroots.symm.trans hroots')
  rcases mem_rootTrees_chains.mp ⟨t, ht, List.mem_map_of_mem hp⟩ with ⟨u, hu, hchain⟩
  rcases List.mem_map.mp hchain with ⟨q, hq, hqp⟩
  have hulinted : u ∈ roots.filterMap (w.conventions.build 0) := (List.mem_filter.mp hu).1
  rw [← hqp]
  exact Lint.chainClean_of_treeIssues (blockTrees_coherent u hu) [] false
    (Lint.treesIssues_eq_nil hissues u hulinted) q hq

/-- In an accepted document, a Block that is reached without a third-party class is reached
through Blocks alone. -/
theorem mem_blockPaths_of_accepted
    (hroots : selectRoots (Document.read mode html) = .ok roots) (h : w.Accepted mode html)
    {p : List String × Component} (hp : w.BlockNode mode roots p) (hext : w.NoExternal p.1) :
    p ∈ blockPathsIn (w.rootTrees mode roots) := by
  rcases hp with ⟨⟨t, ht, hpt⟩, hblock⟩
  rcases rootTrees_spec t ht with ⟨hcoherent, hroot⟩
  rcases List.head?_eq_some_iff.mp (Component.head?_of_mem_paths hpt) with ⟨rest, hrest⟩
  rcases hcoherent.of_mem_paths p hpt with ⟨hlast, hnode⟩
  have hclean := chainClean_of_accepted hroots h ht hpt
  rw [NoExternal, hrest, List.forall_mem_cons] at hext
  rw [hrest] at hclean
  -- from the root, which is a Block, to the node, which is one too
  have hall : w.conventions.AllBlocks p.1 := by
    rw [hrest]
    refine Lint.ChainClean.allBlocks hclean.2.2 (hcoherent.root.kind ▸ hroot) hext.2 ?_
    intro x hx
    rw [hrest, List.getLast?_cons, hx] at hlast
    obtain rfl : x = p.2.base := Option.some.inj hlast
    exact hnode.root.kind ▸ hblock
  refine Component.mem_blockPathsIn.mpr ⟨t, ht, ?_⟩
  rw [Conventions.blockPaths_eq hcoherent hroot]
  exact List.mem_filter.mpr ⟨hpt, decide_eq_true hall⟩

theorem blockNode_of_mem_blockPaths {p : List String × Component}
    (hp : p ∈ blockPathsIn (w.rootTrees mode roots)) :
    w.BlockNode mode roots p ∧ w.NoExternal p.1 := by
  rcases Component.mem_blockPathsIn.mp hp with ⟨t, ht, hpt⟩
  rcases rootTrees_spec t ht with ⟨hcoherent, hroot⟩
  rw [Conventions.blockPaths_eq hcoherent hroot] at hpt
  rcases List.mem_filter.mp hpt with ⟨hpt, hall⟩
  have hall : w.conventions.AllBlocks p.1 := of_decide_eq_true hall
  rcases hcoherent.of_mem_paths p hpt with ⟨hlast, hnode⟩
  refine ⟨⟨⟨t, ht, hpt⟩, ?_⟩, ?_⟩
  · rw [hnode.root.kind]
    exact hall _ (List.mem_of_getLast? hlast)
  · intro b hb
    have := hall b hb
    rw [Conventions.isIndependent, Bool.and_eq_true, Bool.not_eq_true'] at this
    exact this.1

/-! ## Coverage -/

/-- Every Block that is reached without a third-party class has its file. -/
theorem exists_file_of_accepted (hroots : selectRoots (Document.read mode html) = .ok roots)
    (h : w.Accepted mode html) {p : List String × Component} (hp : w.BlockNode mode roots p)
    (hext : w.NoExternal p.1) :
    ∃ f ∈ w.filesFor mode (w.rootTrees mode roots), w.IsFileOf mode p f := by
  exact exists_file_of_mem (mem_blockPaths_of_accepted hroots h hp hext)

/-- A path is that of a file just if it is that of a Block which is reached without a third-party
class, or that of an index that is written. -/
theorem mem_paths_of_accepted (hroots : selectRoots (Document.read mode html) = .ok roots)
    (h : w.Accepted mode html) {path : String} :
    path ∈ (w.filesFor mode (w.rootTrees mode roots)).map GeneratedFile.path ↔
      (∃ q, w.BlockNode mode roots q ∧ w.NoExternal q.1 ∧ w.filePath mode q.1 = path) ∨
        (path = w.indexPath ∧ HasIndex mode (w.rootTrees mode roots)) := by
  rw [filesFor_paths, List.mem_append]
  refine or_congr ?_ ?_
  · constructor
    · intro hpath
      rcases List.mem_map.mp hpath with ⟨q, hq, rfl⟩
      rcases blockNode_of_mem_blockPaths hq with ⟨hblock, hext⟩
      exact ⟨q, hblock, hext, rfl⟩
    · rintro ⟨q, hblock, hext, rfl⟩
      exact List.mem_map.mpr ⟨q, mem_blockPaths_of_accepted hroots h hblock hext, rfl⟩
  · split
    · rename_i hindex
      simp [hindex]
    · rename_i hindex
      simp [hindex]

theorem hasIndex_of_accepted (hroots : selectRoots (Document.read mode html) = .ok roots)
    (h : w.Accepted mode html) {p : List String × Component} (hp : w.BlockNode mode roots p) :
    HasIndex mode (w.rootTrees mode roots) ↔ mode = .selection ∨
      ∃ q, w.BlockNode mode roots q ∧ w.NoExternal q.1 ∧ 1 < q.1.length := by
  rcases hp with ⟨⟨t, ht, _⟩, _⟩
  constructor
  · rintro (⟨hmode, _⟩ | ⟨q, hq, hlen⟩)
    · exact Or.inl hmode
    · rcases blockNode_of_mem_blockPaths hq with ⟨hblock, hext⟩
      exact Or.inr ⟨q, hblock, hext, hlen⟩
  · rintro (hmode | ⟨q, hblock, hext, hlen⟩)
    · exact Or.inl ⟨hmode, List.ne_nil_of_mem ht⟩
    · exact Or.inr ⟨q, mem_blockPaths_of_accepted hroots h hblock hext, hlen⟩

/-- For an accepted document files are generated, among them one for every Block that is reached
without a third-party class. All Blocks have files just if every other Block shares its path with
one of those, or with the index. -/
theorem files_of_accepted (h : w.Accepted mode html) :
    ∃ roots files, selectRoots (Document.read mode html) = .ok roots ∧
      w.generate mode html = .ok files ∧
      (∀ p, w.BlockNode mode roots p → w.NoExternal p.1 → ∃ f ∈ files, w.IsFileOf mode p f) ∧
      ((∀ p, w.BlockNode mode roots p →
          w.filePath mode p.1 ∈ files.map GeneratedFile.path) ↔
        ∀ p, w.BlockNode mode roots p → ¬ w.NoExternal p.1 →
          (∃ q, w.BlockNode mode roots q ∧ w.NoExternal q.1 ∧
            w.filePath mode q.1 = w.filePath mode p.1) ∨
          (w.filePath mode p.1 = w.indexPath ∧ (mode = .selection ∨
            ∃ q, w.BlockNode mode roots q ∧ w.NoExternal q.1 ∧ 1 < q.1.length))) := by
  rcases roots_of_accepted h with ⟨roots, hroots, _⟩
  refine ⟨roots, _, hroots, generate_eq hroots,
    fun p hp hext => exists_file_of_accepted hroots h hp hext, ?_⟩
  simp only [mem_paths_of_accepted hroots h]
  constructor
  · intro hall p hp _
    rw [← hasIndex_of_accepted hroots h hp]
    exact hall p hp
  · intro hrest p hp
    -- only Blocks with a third-party class on their way are in question
    by_cases hext : w.NoExternal p.1
    · exact Or.inl ⟨p, hp, hext, rfl⟩
    · rw [hasIndex_of_accepted hroots h hp]
      exact hrest p hp hext

/-- Without third-party classes, all Blocks of an accepted page have files. -/
theorem files_of_plain_page :
    let w : StylesheetWriter := ⟨{}, {}⟩
    let html := "<p class=a-b><b class=c-d></b></p>".toList
    ∃ roots files, selectRoots (Document.read .root html) = .ok roots ∧
      w.generate .root html = .ok files ∧
      ∀ p, w.BlockNode .root roots p → w.filePath .root p.1 ∈ files.map GeneratedFile.path := by
  intro w html
  have haccepted : w.Accepted .root html := by
    show Lint.run w.conventions .root html = .ok []
    decide +kernel
  rcases files_of_accepted haccepted with ⟨roots, files, hroots, hfiles, _, hall⟩
  refine ⟨roots, files, hroots, hfiles, hall.mpr ?_⟩
  intro p _ hext
  exact absurd (fun _ _ => rfl) hext

/-- A Block below a third-party class, on a page that the linter accepts, has no file. -/
theorem no_file_below_external :
    ¬ ∀ (w : StylesheetWriter) mode html, w.Accepted mode html →
      ∃ roots files, selectRoots (Document.read mode html) = .ok roots ∧
        w.generate mode html = .ok files ∧
        ∀ p, w.BlockNode mode roots p →
          w.filePath mode p.1 ∈ files.map GeneratedFile.path := by
  intro h
  let w : StylesheetWriter := ⟨{ external := { classes := ["x"] } }, {}⟩
  let html := "<p class=a-b><i class=x><b class=c-d></b></i></p>".toList
  have haccepted : Lint.run w.conventions .root html = .ok [] := by decide +kernel
  have hcomputed : ((selectRoots (Document.read .root html)).map fun roots =>
      (((Component.pathsIn (w.rootTrees .root roots)).filter (·.2.independent)).map Prod.fst,
        (w.filesFor .root (w.rootTrees .root roots)).map GeneratedFile.path)) =
      .ok ([["a-b"], ["a-b", "x", "c-d"]], ["a-b.scss"]) := by decide +kernel
  rcases h w .root html haccepted with ⟨roots, files, hroots, hfiles, hall⟩
  rw [hroots] at hcomputed
  rcases Prod.mk.inj (Except.ok.inj hcomputed) with ⟨hblocks, hpaths⟩
  rw [generate_eq hroots] at hfiles
  cases hfiles
  have hmem : ["a-b", "x", "c-d"] ∈ [["a-b"], ["a-b", "x", "c-d"]] := by decide
  rw [← hblocks] at hmem
  rcases List.mem_map.mp hmem with ⟨p, hp, hchain⟩
  rcases List.mem_filter.mp hp with ⟨hp, hblock⟩
  have hpath := hall p ⟨Component.mem_pathsIn.mp hp, hblock⟩
  rw [hpaths, hchain] at hpath
  exact absurd hpath (by decide)

end BlockMarkup.StylesheetWriter
