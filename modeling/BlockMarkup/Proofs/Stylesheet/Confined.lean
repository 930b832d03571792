import BlockMarkup.Proofs.Naming.FileNames
import BlockMarkup.Proofs.Stylesheet.Resolve

/-! # Files stay in their directories

The classes of a document may hold anything but blanks, so they may well look like paths. None of that
gets into the path of a file: only Blocks have files, and without a pattern of its own a project has
Blocks of letters, digits and separators alone (`isSlug_of_isBlock`). File names keep to the same
characters (`isSlug_format`). So every file lies right in the directory of the page or in that of child
Blocks (`paths_confined`).
-/

namespace BlockMarkup

open Markup (Node RootMode Document)
open Component (base blockPathsIn)
open NamePattern (Joins IsLowerWord)

namespace FileName

variable {case : WordCase} {sep : Char} {limit : Nat} {name : String} {s : List Char}
  {ws : List (List Char)} {n : NamingOptions}

/-! ## Names without meaning in a path -/

/-- An ASCII letter, a digit, a hyphen or an underscore. -/
def isSlugChar (c : Char) : Bool := c.isAlphanum || c == '-' || c == '_'

/-- A name that has no other characters. -/
structure IsSlug (name : String) : Prop where
  ne_empty : name ≠ ""
  chars : ∀ c ∈ name.toList, isSlugChar c = true

theorem isSlugChar_of_isAlphanum {c : Char} (h : c.isAlphanum = true) : isSlugChar c = true := by
  unfold isSlugChar
  rw [h]
  rfl

theorem isSlugChar_separator (h : case.separator? = some sep) : isSlugChar sep = true := by
  cases case with
  | kebab | snake =>
    cases h
    rfl
  | camel | pascal => cases h

theorem IsSlug.slash_notMem (h : IsSlug name) : '/' ∉ name.toList := by
  intro hmem
  exact absurd (h.chars '/' hmem) (by decide)

/-- What the index is named. -/
theorem isSlug_index : IsSlug "index" := by
  have hchars : "index".toList.all isSlugChar = true := rfl
  exact ⟨by decide, List.all_eq_true.mp hchars⟩

/-! ## Blocks -/

theorem isSlugChar_of_joins (hsep : case.separator? = some sep) (h : Joins sep ws s) :
    ∀ c ∈ s, isSlugChar c = true := by
  intro c hc
  rcases h.mem hc with hsmall | rfl
  · exact isSlugChar_of_isAlphanum (Text.isAlphanum_iff.mpr (Or.inr hsmall))
  · exact isSlugChar_separator hsep

theorem isSlugChar_of_blockShape (h : case.BlockShape limit s) : ∀ c ∈ s, isSlugChar c = true := by
  cases hsep : case.separator? with
  | some sep =>
    obtain ⟨words, hwords, -⟩ := (WordCase.blockShape_of_separator hsep).mp h
    exact isSlugChar_of_joins hsep hwords
  | none =>
    obtain ⟨hbegins, -⟩ := (WordCase.blockShape_of_capitals hsep).mp h
    intro c hc
    exact isSlugChar_of_isAlphanum (hbegins.alphanum c hc)

/-- A Block is a slug, unless it has a line break at its end, which patterns let pass. -/
theorem isSlug_of_isBlock (hcustom : n.custom.block = none) (h : n.isBlock name = true)
    (hbreak : '\n' ∉ name.toList) : IsSlug name := by
  obtain ⟨-, hname, -, hmatches⟩ := (NamingOptions.isBlock_iff hcustom).mp h
  obtain ⟨body, hshape, hbody⟩ := NamePattern.matchesName_block_shape.mp hmatches
  refine ⟨hname, ?_⟩
  rw [hbody.eq_of_not_mem hbreak]
  exact isSlugChar_of_blockShape hshape

/-! ## File names of Blocks -/

/-- Joining puts nothing but separators between the words. -/
theorem isSlugChar_of_mem_joined (h : Alphanumeric ws) : ∀ c ∈ case.joined ws, isSlugChar c = true := by
  have hseparated : ∀ sep, isSlugChar sep = true → ∀ c ∈ [sep].intercalate ws, isSlugChar c = true := by
    intro sep hsep c hc
    rcases Text.mem_of_mem_intercalate hc with hc | ⟨w, hw, hc⟩
    · rw [List.mem_singleton.mp hc]
      exact hsep
    · exact isSlugChar_of_isAlphanum (h w hw c hc)
  have hcapitals : ∀ {vs : List (List Char)}, Alphanumeric vs → ∀ c ∈ vs.flatMap capital,
      isSlugChar c = true := by
    intro vs hvs c hc
    obtain ⟨v, hv, hc⟩ := List.mem_flatMap.mp hc
    exact isSlugChar_of_isAlphanum (isAlphanum_of_mem_capital (hvs v hv) c hc)
  cases case with
  | kebab => exact hseparated '-' rfl
  | snake => exact hseparated '_' rfl
  | camel =>
    cases ws with
    | nil => exact fun c hc => absurd hc List.not_mem_nil
    | cons w ws =>
      intro c hc
      rcases List.mem_append.mp hc with hc | hc
      · exact isSlugChar_of_isAlphanum (h w List.mem_cons_self c hc)
      · exact hcapitals (fun v hv => h v (List.mem_cons_of_mem w hv)) c hc
  | pascal => exact hcapitals h

/-- Joining leaves out no word. -/
theorem joined_ne_nil (hne : ws ≠ []) (h : ∀ w ∈ ws, IsLowerWord w) : case.joined ws ≠ [] := by
  intro hnil
  have hletters : lettersOf (case.joined ws) = ws.flatten := lettersOf_joined h
  rw [hnil] at hletters
  obtain ⟨w, ws, rfl⟩ := List.exists_cons_of_ne_nil hne
  have hempty : w = [] := (List.append_eq_nil_iff.mp hletters.symm).1
  exact (h w List.mem_cons_self).1 hempty

/-- The file name of a Block is a slug, however file names are written. -/
theorem isSlug_format (hcustom : n.custom.block = none) (h : n.isBlock name = true)
    (hbreak : '\n' ∉ name.toList) (fileCase : FileCase) : IsSlug (format name fileCase) := by
  by_cases hpreserve : fileCase = .preserve
  · rw [hpreserve]
    exact isSlug_of_isBlock hcustom h hbreak
  · obtain ⟨case, rfl⟩ := exists_wordCase hpreserve
    have hwords := blockWords_of_isBlock hcustom h
    have hformat : (format name (FileCase.ofName case.name)).toList = case.joined (lowerLists name) :=
      toList_format hwords.ne_nil hwords.alphanumeric
    have hlower : lowerLists name ≠ [] := by
      intro hnil
      exact hwords.ne_nil (List.map_eq_nil_iff.mp hnil)
    constructor
    · intro hempty
      rw [hempty] at hformat
      exact joined_ne_nil hlower hwords.isLowerWord_lower hformat.symm
    · rw [hformat]
      exact isSlugChar_of_mem_joined (alphanumeric_map_toLower hwords.alphanumeric)

end FileName

namespace StylesheetWriter

variable {w : StylesheetWriter} {mode : RootMode} {html : List Char} {files : List GeneratedFile}
  {chain : List String} {roots : List Node}

open FileName (IsSlug)

/-! ## Files -/

theorem isSlug_of_blockChain (hcustom : w.options.naming.custom.block = none)
    (h : w.BlockChain mode html chain) {b : String} (hb : b ∈ chain) (fileCase : FileCase) :
    IsSlug (FileName.format b fileCase) := by
  obtain ⟨hall, _, _, _, _, r, _, _, rfl⟩ := h
  have hblock : w.options.naming.isBlock b = true := (Bool.and_eq_true_iff.mp (hall b hb)).2
  have hbreak : '\n' ∉ b.toList := by
    intro hmem
    exact absurd (Route.isBlank_of_mem_chain hb _ hmem) (by decide)
  exact FileName.isSlug_format hcustom hblock hbreak fileCase

/-- The base of a file is a slug. -/
theorem isSlug_fileBase (hcustom : w.options.naming.custom.block = none)
    (h : w.BlockChain mode html chain) (hne : chain ≠ []) : IsSlug (w.fileBase chain) := by
  have hlast : chain.getLastD "" ∈ chain := by
    rw [List.getLastD_eq_getLast?, List.getLast?_eq_some_getLast hne]
    exact List.getLast_mem hne
  unfold fileBase
  split
  · exact isSlug_of_blockChain hcustom h hlast _
  · exact isSlug_of_blockChain hcustom h hlast _

/-- The sheets below a root are those of Blocks with classes above them. -/
theorem one_lt_length_of_mem_childSheets {t : Component} {rootFile : String} {s : Sheet}
    (hs : s ∈ childSheets rootFile [t.base] t t.independents) : 1 < s.chain.length := by
  have hplace : s.place ∈ (childSheets rootFile [t.base] t t.independents).map Sheet.place :=
    List.mem_map_of_mem hs
  rw [childSheets_places] at hplace
  obtain ⟨p, hp, he⟩ := List.mem_map.mp hplace
  have hchain : t.base :: p.1 = s.chain := congrArg Prod.fst he
  rw [← hchain]
  exact length_below hp

/-- On a page the sheet of the root comes first. All other sheets are listed by the index, and in a
selection all are. -/
theorem exists_page_sheets (hroots : selectRoots (Document.read mode html) = .ok roots) :
    ∃ page listed : List Sheet, w.sheets mode html = page ++ listed ∧
      (page = [] ∨ mode = .root ∧ ∃ t ∈ w.rootTrees mode roots, page = [rootSheet mode t]) ∧
      ∀ s ∈ listed, Listed mode s.chain := by
  rw [sheets_eq hroots]
  cases mode with
  | selection => exact ⟨[], _, rfl, Or.inl rfl, fun s _ => Or.inl rfl⟩
  | root =>
    rcases rootTrees_of_page (w := w) (exists_root_of_page hroots rfl) with htrees | ⟨t, htrees⟩
    · rw [htrees]
      exact ⟨[], [], rfl, Or.inl rfl, fun s hs => absurd hs List.not_mem_nil⟩
    · rw [htrees, List.flatMap_singleton]
      refine ⟨[rootSheet .root t], _, rfl, Or.inr ⟨rfl, t, List.mem_singleton_self t, rfl⟩, ?_⟩
      intro s hs
      exact Or.inr (one_lt_length_of_mem_childSheets hs)

/-- Without a pattern for Blocks, the file of the page has a slug for its name and lies beside the page,
and all other files have slugs for their names and lie in the directory of child Blocks. There is no
page in a selection. -/
theorem paths_confined (h : w.generate mode html = .ok files)
    (hcustom : w.options.naming.custom.block = none) :
    ∃ page children : List GeneratedFile, files = page ++ children ∧
      (page = [] ∨ mode = .root ∧ ∃ s ∈ w.sheets mode html, s.parent = none ∧ page = [w.fileOf mode s]) ∧
      (∀ f ∈ page, ∃ x, IsSlug x ∧ f.path = x ++ ".scss" ∧ Path.ofString f.path = ⟨false, [x ++ ".scss"]⟩) ∧
      ∀ f ∈ children, ∃ x, IsSlug x ∧ f.path = w.options.childDir ++ "/" ++ x ++ ".scss" ∧
        Path.ofString f.path = ⟨w.childDirectory.absolute, w.childDirectory.names ++ [x ++ ".scss"]⟩ := by
  obtain ⟨roots, hroots, -⟩ := exists_roots_of_generate h
  obtain ⟨index, hfiles, hindex⟩ := exists_index_of_generate h
  obtain ⟨page, listed, hsheets, hpage, hlisted⟩ := exists_page_sheets (w := w) hroots
  have hslug : ∀ s ∈ w.sheets mode html, IsSlug (w.fileBase s.chain) := by
    intro s hs
    have hchain : w.BlockChain mode html s.chain := (mem_sheet_chains hroots).mp (List.mem_map_of_mem hs)
    obtain ⟨t, ht, hs⟩ := (mem_sheets hroots).mp hs
    exact isSlug_fileBase hcustom hchain (List.ne_nil_of_length_pos (sheetOf_of_mem ht hs).length_pos)
  have hchild : ∀ f ∈ listed.map (w.fileOf mode) ++ index, ∃ x, IsSlug x ∧ f.path = w.childPath x := by
    intro f hf
    rcases List.mem_append.mp hf with hf | hf
    · obtain ⟨s, hs, rfl⟩ := List.mem_map.mp hf
      exact ⟨_, hslug s (hsheets ▸ List.mem_append_right page hs), filePath_of_listed (hlisted s hs)⟩
    · exact ⟨_, FileName.isSlug_index, hindex f hf⟩
  refine ⟨page.map (w.fileOf mode), listed.map (w.fileOf mode) ++ index, ?_, ?_, ?_, ?_⟩
  · rw [hfiles, hsheets, List.map_append, List.append_assoc]
  · rcases hpage with rfl | ⟨hmode, t, ht, rfl⟩
    · exact Or.inl rfl
    · refine Or.inr ⟨hmode, rootSheet mode t, ?_, rfl, rfl⟩
      rw [hsheets]
      exact List.mem_append_left listed (List.mem_singleton_self _)
  · intro f hf
    obtain ⟨s, hs, rfl⟩ := List.mem_map.mp hf
    have hx : IsSlug (w.fileBase s.chain) := hslug s (hsheets ▸ List.mem_append_left listed hs)
    -- there is a sheet of a page, so the mode is that of pages
    rcases hpage with rfl | ⟨rfl, t, ht, rfl⟩
    · cases hs
    · obtain rfl := List.mem_singleton.mp hs
      have hpath : (w.fileOf .root (rootSheet .root t)).path = w.fileBase [t.base] ++ ".scss" := rfl
      exact ⟨_, hx, hpath, hpath ▸ ofString_scss hx.slash_notMem⟩
  · intro f hf
    obtain ⟨x, hx, hpath⟩ := hchild f hf
    exact ⟨x, hx, hpath, hpath ▸ ofString_childPath hx.slash_notMem⟩

/-- Classes that look like paths, below a Block with a row of capitals. -/
theorem paths_confined_path_like_classes :
    let w : StylesheetWriter := ⟨{ naming := { blockCase := .camel }, childFileCase := .kebab }, {}⟩
    let html := "<p class='pageRoot ../x'><i class='../up'></i><b class=userIDCard></b></p>".toList
    ∃ files page children, w.generate .root html = .ok files ∧ files = page ++ children ∧
      files.map GeneratedFile.path = ["pageRoot.scss", "scss/user-id-card.scss", "scss/index.scss"] ∧
      (∀ f ∈ page, ∃ x, IsSlug x ∧ f.path = x ++ ".scss") ∧
      ∀ f ∈ children, ∃ x, IsSlug x ∧ f.path = w.options.childDir ++ "/" ++ x ++ ".scss" := by
  intro w html
  have hpaths : (w.generate .root html).map (fun files => files.map GeneratedFile.path) =
      .ok ["pageRoot.scss", "scss/user-id-card.scss", "scss/index.scss"] := by decide +kernel
  obtain ⟨files, hfiles, hpaths⟩ := map_eq_ok.mp hpaths
  obtain ⟨page, children, heq, -, hpage, hchildren⟩ := paths_confined hfiles rfl
  refine ⟨files, page, children, hfiles, heq, hpaths, fun f hf => ?_, fun f hf => ?_⟩
  · obtain ⟨x, hx, hpath, -⟩ := hpage f hf
    exact ⟨x, hx, hpath⟩
  · obtain ⟨x, hx, hpath, -⟩ := hchildren f hf
    exact ⟨x, hx, hpath⟩

end StylesheetWriter

end BlockMarkup
