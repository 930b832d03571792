import BlockMarkup.Proofs.Stylesheet.Paths
import BlockMarkup.Proofs.Text.Signs
import BlockMarkup.Proofs.Text.Lines

/-! # The index of the child Blocks

The lines of the index come from a traversal of their own, which has later Blocks first. It meets
the same Blocks as the one that makes the files (`mem_indexEntries`), so the index has one line for
every file base in the directory of child Blocks and no other lines (`index_of_generate`). That its
text has just these lines rests on the classes: they hold no line feeds, and file names put none in.
-/

namespace BlockMarkup

open Markup (Node RootMode Document)
open Component (base blockPaths blockPathsIn)

/-- The classes on the way to an element hold no blanks. -/
theorem Route.isBlank_of_mem_chain {r : Route} {b : String} (hb : b ∈ r.chain) :
    ∀ ch ∈ b.toList, Text.isBlank ch = false := by
  rcases List.mem_filterMap.mp hb with ⟨n, _, hn⟩
  exact Text.isBlank_of_mem_words (List.mem_of_mem_head? hn)

namespace StylesheetWriter

variable {w : StylesheetWriter} {mode : RootMode} {html : List Char} {files : List GeneratedFile}

/-! ## Which lines there are -/

mutual

theorem getLast?_of_mem_blockPaths {p : List String × Component} : ∀ x : Component,
    p ∈ x.blockPaths → p.1.getLast? = some p.2.base
  | .mk b i m v s n independents o t r d => by
    intro hp
    rw [blockPaths, List.mem_cons, List.mem_map] at hp
    rcases hp with rfl | ⟨q, hq, rfl⟩
    · rfl
    · rw [List.getLast?_cons, getLast?_of_mem_blockPathsIn independents hq]
      rfl

theorem getLast?_of_mem_blockPathsIn {p : List String × Component} : ∀ xs : List Component,
    p ∈ blockPathsIn xs → p.1.getLast? = some p.2.base
  | [] => by simp [blockPathsIn]
  | x :: rest => by
    intro hp
    rw [blockPathsIn, List.mem_append] at hp
    rcases hp with hp | hp
    · exact getLast?_of_mem_blockPaths x hp
    · exact getLast?_of_mem_blockPathsIn rest hp

end

mutual

theorem mem_indexEntriesOf {file : String} : ∀ x : Component,
    file ∈ w.indexEntriesOf x ↔ ∃ p ∈ x.blockPaths, w.childFile p.2.base = file
  | .mk b i m v s n independents o t r d => by
    rw [indexEntriesOf, blockPaths, List.mem_cons, mem_indexEntries independents]
    simp only [List.mem_cons, List.mem_map]
    constructor
    · rintro (rfl | ⟨p, hp, rfl⟩)
      · exact ⟨_, Or.inl rfl, rfl⟩
      · exact ⟨_, Or.inr ⟨p, hp, rfl⟩, rfl⟩
    · rintro ⟨_, rfl | ⟨p, hp, rfl⟩, rfl⟩
      · exact Or.inl rfl
      · exact Or.inr ⟨p, hp, rfl⟩

/-- The traversal for the index meets the Blocks that Blocks lead to. -/
theorem mem_indexEntries {file : String} : ∀ xs : List Component,
    file ∈ w.indexEntries xs ↔ ∃ p ∈ blockPathsIn xs, w.childFile p.2.base = file
  | [] => by simp [indexEntries, blockPathsIn]
  | x :: rest => by
    rw [indexEntries, blockPathsIn, List.mem_append, mem_indexEntries rest, mem_indexEntriesOf x]
    simp only [List.mem_append, or_and_right, exists_or]
    exact Or.comm

end

/-- The file of a Block to which some classes lead is one that the index lists. -/
def Listed (mode : RootMode) (chain : List String) : Prop :=
  mode = .selection ∨ 1 < chain.length

/-- The base of the file of a Block to which some classes lead. -/
def fileBase (w : StylesheetWriter) (chain : List String) : String :=
  if chain.length ≤ 1 then w.rootFile (chain.getLastD "") else w.childFile (chain.getLastD "")

theorem filePath_of_listed {chain : List String} (h : Listed mode chain) :
    w.filePath mode chain = w.childPath (w.fileBase chain) := by
  rw [filePath, fileBase]
  split
  · rename_i hlen
    rcases h with rfl | h
    · rfl
    · omega
  · rfl

theorem childPath_inj {a b : String} : w.childPath a = w.childPath b ↔ a = b := by
  rw [childPath, childPath, ← String.toList_inj, ← String.toList_inj]
  simp

theorem length_below {x : Component} {p : List String × Component}
    (hp : p ∈ blockPathsIn x.independents) : 1 < (x.base :: p.1).length := by
  have hne : p.1 ≠ [] := by
    intro hnil
    have hlast := getLast?_of_mem_blockPathsIn _ hp
    simp [hnil] at hlast
  have hpos := List.length_pos_of_ne_nil hne
  rw [List.length_cons]
  omega

/-- A root gives rise to one line for every listed file of a Block that it leads to. -/
theorem mem_useLines {x : Component} {line : String} :
    line ∈ w.useLines mode x ↔
      ∃ p ∈ x.blockPaths, Listed mode p.1 ∧ useLine (w.fileBase p.1) = line := by
  have hbelow : line ∈ (w.indexEntries x.independents).map useLine ↔
      ∃ p ∈ blockPathsIn x.independents,
        Listed mode (x.base :: p.1) ∧ useLine (w.fileBase (x.base :: p.1)) = line := by
    rw [List.mem_map]
    simp only [mem_indexEntries, exists_exists_and_eq_and]
    refine exists_congr fun p => and_congr_right fun hp => ?_
    have hlen := length_below hp
    have hfile : w.fileBase (x.base :: p.1) = w.childFile p.2.base := by
      rw [fileBase, if_neg (by omega), List.getLastD_eq_getLast?, List.getLast?_cons,
        getLast?_of_mem_blockPathsIn _ hp]
      rfl
    rw [hfile]
    exact (and_iff_right (Or.inr hlen)).symm
  rw [Component.blockPaths_def]
  simp only [List.mem_cons, List.mem_map, or_and_right, exists_or, exists_eq_left,
    exists_exists_and_eq_and]
  cases mode with
  | root =>
    -- the file of the root itself is not listed
    have hroot : ¬ Listed .root [x.base] := by simp [Listed]
    simpa only [useLines, hroot, false_and, false_or] using hbelow
  | selection =>
    have hroot : Listed .selection [x.base] := Or.inl rfl
    simp only [useLines, List.mem_cons, hbelow, hroot, true_and]
    exact or_congr_left eq_comm

/-! ## The text of the index -/

theorem newline_notMem_useLine {file : String} (h : '\n' ∉ file.toList) :
    '\n' ∉ (useLine file).toList := by
  simp [useLine, h]

/-- The names of files hold no line feeds, because the classes of a document do not. -/
theorem newline_notMem_fileBase {chain : List String} (h : w.BlockChain mode html chain) :
    '\n' ∉ (w.fileBase chain).toList := by
  rcases h with ⟨_, roots, _, n, _, r, _, _, rfl⟩
  have hclass : '\n' ∉ (r.chain.getLastD "").toList := by
    intro hmem
    rcases hlast : r.chain.getLast? with _ | b
    · simp [List.getLastD_eq_getLast?, hlast] at hmem
    · rw [List.getLastD_eq_getLast?, hlast] at hmem
      have hblank := Route.isBlank_of_mem_chain (List.mem_of_getLast? hlast) _ hmem
      exact absurd hblank (by decide)
  have hformat : ∀ case, '\n' ∉ (FileName.format (r.chain.getLastD "") case).toList :=
    fun case hmem => hclass (FileName.mem_of_mem_format (by decide) (by decide) hmem)
  rw [fileBase]
  split
  · exact hformat _
  · exact hformat _

/-- The lines of the index for some trees. -/
theorem mem_uses {trees : List Component} {line : String} :
    line ∈ unique (trees.flatMap (w.useLines mode)) ↔
      ∃ p ∈ blockPathsIn trees, Listed mode p.1 ∧ useLine (w.fileBase p.1) = line := by
  simp only [mem_unique, List.mem_flatMap, mem_useLines, Component.mem_blockPathsIn]
  constructor
  · rintro ⟨x, hx, p, hp, h⟩
    exact ⟨p, ⟨x, hx, hp⟩, h⟩
  · rintro ⟨p, ⟨x, hx, hp⟩, h⟩
    exact ⟨x, hx, p, hp, h⟩

theorem indexFile_ne_nil {uses : List String} : w.indexFile uses ≠ [] ↔ ∃ line, line ∈ uses := by
  rw [indexFile]
  cases uses with
  | nil => simp
  | cons line rest => simp

/-- Related lists as one list of pairs. -/
theorem exists_pairs_of_forall₂ {α β : Type} {R : α → β → Prop} {xs : List α} {ys : List β}
    (h : List.Forall₂ R xs ys) :
    ∃ ps : List (α × β), ps.map Prod.fst = xs ∧ ps.map Prod.snd = ys ∧ ∀ p ∈ ps, R p.1 p.2 := by
  rcases List.forall₂_iff_zip.mp h with ⟨hlength, hpairs⟩
  exact ⟨xs.zip ys, List.map_fst_zip (by omega), List.map_snd_zip (by omega),
    fun p hp => hpairs hp⟩

/-- The index is written just if there is a file that it lists, and its lines are the uses of the
files that it lists, once each. -/
theorem index_of_generate (h : w.generate mode html = .ok files) :
    ∃ (blocks : List ((List String × Component) × GeneratedFile)) (index : List GeneratedFile),
      files = blocks.map Prod.snd ++ index ∧
      (∀ q ∈ blocks, w.IsFileOf mode q.1 q.2) ∧
      (∀ chain, chain ∈ blocks.map (·.1.1) ↔ w.BlockChain mode html chain) ∧
      (index ≠ [] ↔ ∃ q ∈ blocks, Listed mode q.1.1) ∧
      ∀ f ∈ index, index = [f] ∧ f.path = w.indexPath ∧
        ∃ lines : List String,
          Text.linesOf f.content.toList = lines.map String.toList ++ [[]] ∧ lines.Nodup ∧
          ∀ line, line ∈ lines ↔ ∃ q ∈ blocks, Listed mode q.1.1 ∧
            ∃ b, q.2.path = w.childPath b ∧ line = useLine b := by
  rcases exists_roots_of_generate h with ⟨roots, hroots, rfl⟩
  have hchains : ∀ chain, chain ∈ (blockPathsIn (w.rootTrees mode roots)).map Prod.fst ↔
      w.BlockChain mode html chain := fun chain => mem_blockChains hroots
  rw [filesFor]
  generalize w.rootTrees mode roots = trees at hchains ⊢
  rcases exists_pairs_of_forall₂ (@forest_correspond w mode trees) with ⟨blocks, hfst, hsnd, hfile⟩
  -- what is said about the Blocks is said about their files
  have hlines : ∀ line, line ∈ unique (trees.flatMap (w.useLines mode)) ↔
      ∃ q ∈ blocks, Listed mode q.1.1 ∧ useLine (w.fileBase q.1.1) = line := by
    intro line
    rw [mem_uses, ← hfst]
    simp only [List.mem_map, exists_exists_and_eq_and]
  rw [← hfst, List.map_map] at hchains
  have hnodup := unique_nodup (trees.flatMap (w.useLines mode))
  generalize unique (trees.flatMap (w.useLines mode)) = uses at hlines hnodup
  refine ⟨blocks, w.indexFile uses, by rw [hsnd], hfile, hchains, ?_, ?_⟩
  · rw [indexFile_ne_nil]
    simp only [hlines]
    constructor
    · rintro ⟨_, q, hq, hlisted, _⟩
      exact ⟨q, hq, hlisted⟩
    · rintro ⟨q, hq, hlisted⟩
      exact ⟨_, q, hq, hlisted, rfl⟩
  · intro f hf
    have hne : uses ≠ [] := by
      rcases indexFile_ne_nil.mp (List.ne_nil_of_mem hf) with ⟨line, hline⟩
      exact List.ne_nil_of_mem hline
    rw [indexFile, if_neg (by simpa using hne), List.mem_singleton] at hf
    subst hf
    refine ⟨?_, rfl, uses, Text.linesOf_intercalate hne ?_, hnodup, ?_⟩
    · rw [indexFile, if_neg (by simpa using hne)]
    · intro line hline
      rcases (hlines line).mp hline with ⟨q, hq, _, rfl⟩
      exact newline_notMem_useLine (newline_notMem_fileBase ((hchains _).mp (List.mem_map_of_mem hq)))
    · intro line
      rw [hlines line]
      refine exists_congr fun q => and_congr_right fun hq => and_congr_right fun hlisted => ?_
      -- of the file of a listed Block there is one base only
      rw [(hfile q hq).1, filePath_of_listed hlisted]
      simp only [childPath_inj, exists_eq_left']
      exact eq_comm

/-- A Block under two Blocks has two files in the directory of child Blocks, and one line in the
index. -/
theorem index_of_shared_block :
    let w : StylesheetWriter := ⟨{}, {}⟩
    let html := "<p class=a-b><b class=c-d><i class=c-d></i></b></p>".toList
    ∃ files, w.generate .root html = .ok files ∧
      ∃ f ∈ files, f.path = w.indexPath ∧ ∃ lines : List String,
        Text.linesOf f.content.toList = lines.map String.toList ++ [[]] ∧ lines.Nodup ∧
        ∀ line, line ∈ lines ↔ line = "@use \"c-d\";" := by
  intro w html
  have hcomputed : ((selectRoots (Document.read .root html)).map fun roots =>
      (blockPathsIn (w.rootTrees .root roots)).map Prod.fst) =
      .ok [["a-b"], ["a-b", "c-d"], ["a-b", "c-d", "c-d"]] := by decide +kernel
  rcases map_eq_ok.mp hcomputed with ⟨roots, hroots, hblocks⟩
  have hfiles := generate_eq (w := w) hroots
  rcases index_of_generate hfiles with ⟨blocks, index, heq, hfile, hchains, hindex, hlines⟩
  have hmem : ∀ chain, chain ∈ blocks.map (·.1.1) ↔
      chain ∈ [["a-b"], ["a-b", "c-d"], ["a-b", "c-d", "c-d"]] := by
    intro chain
    rw [hchains, ← mem_blockChains hroots, hblocks]
  -- the Blocks below the root are listed, under one name
  have hlisted : ∀ q ∈ blocks, Listed .root q.1.1 → q.2.path = w.childPath "c-d" := by
    intro q hq hlisted
    have hchain := (hmem _).mp (List.mem_map_of_mem hq)
    rw [(hfile q hq).1]
    simp only [List.mem_cons, List.not_mem_nil, or_false] at hchain
    rcases hchain with h | h | h
    · simp [Listed, h] at hlisted
    · rw [h]
      rfl
    · rw [h]
      rfl
  rcases List.mem_map.mp ((hmem ["a-b", "c-d"]).mpr (by simp)) with ⟨q, hq, hchain⟩
  have hq' : Listed .root q.1.1 := by simp [Listed, hchain]
  rcases List.exists_mem_of_ne_nil _ (hindex.mpr ⟨q, hq, hq'⟩) with ⟨f, hf⟩
  rcases hlines f hf with ⟨_, hpath, lines, htext, hnodup, hlines⟩
  refine ⟨_, hfiles, f, heq ▸ List.mem_append_right _ hf, hpath, lines, htext, hnodup, ?_⟩
  intro line
  rw [hlines]
  constructor
  · rintro ⟨p, hp, hp', b, hb, rfl⟩
    rw [hlisted p hp hp', childPath_inj] at hb
    rw [← hb]
    rfl
  · rintro rfl
    exact ⟨q, hq, hq', "c-d", hlisted q hq hq', rfl⟩

end StylesheetWriter

end BlockMarkup
