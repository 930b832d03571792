import BlockMarkup.Proofs.Files.Path
import BlockMarkup.Proofs.Stylesheet.Index
import BlockMarkup.Proofs.Stylesheet.Links

/-! # Where links between stylesheets lead

A link is taken from the directory of the file that it stands in (`LeadsTo`). The link to a child
Block leads to the file of the Block. Three things can go wrong with the others: the directory of
child Blocks is not one level below the file of the page, the file of a root is named by other rules
than those that the link to it follows, and a Block below an Element has no file of its own.
Without them all links lead to files, and with any of them some link does not
(`links_lead_iff`).
-/

namespace BlockMarkup

open Markup (Node RootMode Document)
open Component (base blockPaths blockPathsIn Unmarked)

namespace StylesheetWriter

variable {w : StylesheetWriter} {mode : RootMode} {html : List Char} {files : List GeneratedFile}

/-! ## Paths and links -/

/-- The link, in the file at a path, leads to the other path. -/
def LeadsTo (file link path : String) : Prop :=
  ((Path.ofString file).parent.join (Path.ofString (link ++ ".scss"))).Same (Path.ofString path)

/-- The directory of child Blocks, as a path. -/
def childDirectory (w : StylesheetWriter) : Path := Path.ofString (w.options.childDir ++ "/")

/-- The directory of child Blocks is one level below that of a page. -/
def OneLevelBelow (w : StylesheetWriter) : Prop :=
  ∃ name, name ≠ Path.parentName ∧ w.childDirectory.Same ⟨false, [name]⟩

theorem isName_scss {file : String} (h : '/' ∉ file.toList) : Path.IsName (file ++ ".scss") := by
  refine ⟨by simpa using h, ?_⟩
  intro hmem
  have hlength : (file ++ ".scss").toList.length = file.toList.length + 5 := by simp
  simp only [List.mem_cons, List.not_mem_nil, or_false] at hmem
  rcases hmem with he | he | he <;> simp [he, Path.parentName] at hlength

theorem ofString_scss {file : String} (h : '/' ∉ file.toList) :
    Path.ofString (file ++ ".scss") = ⟨false, [file ++ ".scss"]⟩ :=
  Path.ofString_name (isName_scss h)

theorem ofString_childPath {file : String} (h : '/' ∉ file.toList) :
    Path.ofString (w.childPath file) =
      ⟨w.childDirectory.absolute, w.childDirectory.names ++ [file ++ ".scss"]⟩ := by
  rw [childPath, String.append_assoc]
  exact Path.ofString_append _ (isName_scss h)

theorem ofString_parentLink {file : String} (h : '/' ∉ file.toList) :
    Path.ofString ("../" ++ file ++ ".scss") = ⟨false, [Path.parentName, file ++ ".scss"]⟩ := by
  have hpath := Path.ofString_append ".." (isName_scss h)
  rw [String.append_assoc]
  exact hpath

theorem ne_parentName {file : String} (h : '/' ∉ file.toList) :
    file ++ ".scss" ≠ Path.parentName := by
  intro he
  exact (isName_scss h).2 (by simp [he])

theorem scss_inj {a b : String} : a ++ ".scss" = b ++ ".scss" ↔ a = b := by
  rw [← String.toList_inj, ← String.toList_inj]
  simp

/-- What a link without a leading slash leads to from a child Block. -/
theorem join_from_child {file : String} (h : '/' ∉ file.toList) (names : List String) :
    (Path.ofString (w.childPath file)).parent.join ⟨false, names⟩ =
      ⟨w.childDirectory.absolute, w.childDirectory.names ++ names⟩ := by
  rw [ofString_childPath h]
  simp [Path.parent, Path.join]

/-- From a child Block, a link that goes up leads to the file of the page just if the directory of
child Blocks is one level below. -/
theorem leadsTo_page_iff {file page : String} (hfile : '/' ∉ file.toList)
    (hpage : '/' ∉ page.toList) :
    LeadsTo (w.childPath file) ("../" ++ page) (page ++ ".scss") ↔ w.OneLevelBelow := by
  have hup : w.childDirectory.names ++ [Path.parentName, page ++ ".scss"] =
      (w.childDirectory.names ++ [Path.parentName]) ++ [page ++ ".scss"] := by simp
  rw [LeadsTo, ofString_parentLink hpage, join_from_child hfile, ofString_scss hpage, hup]
  show Path.Same _ ⟨false, [] ++ [page ++ ".scss"]⟩ ↔ _
  rw [Path.same_append_iff (ne_parentName hpage) (ne_parentName hpage), Path.same_parent_iff,
    eq_self, true_and]
  rfl

/-- From a child Block, a link without directories leads to the file of that name beside it. -/
theorem leadsTo_sibling_iff {file link sibling : String} (hfile : '/' ∉ file.toList)
    (hlink : '/' ∉ link.toList) (hsibling : '/' ∉ sibling.toList) :
    LeadsTo (w.childPath file) link (w.childPath sibling) ↔ link = sibling := by
  rw [LeadsTo, ofString_scss hlink, join_from_child hfile, ofString_childPath hsibling,
    Path.same_append_iff (ne_parentName hlink) (ne_parentName hsibling), scss_inj]
  exact and_iff_left (Path.Same.refl _)

/-- From the page, the link to a child Block leads to the file of the Block. -/
theorem leadsTo_child {page : String} (hpage : '/' ∉ page.toList) (file : String) :
    LeadsTo (page ++ ".scss") (w.options.childDir ++ "/" ++ file) (w.childPath file) := by
  have hjoin : ∀ p : Path, (⟨false, []⟩ : Path).join p = p := by
    intro p
    rcases p with ⟨absolute, names⟩
    cases absolute <;> simp [Path.join]
  rw [LeadsTo, ofString_scss hpage]
  show ((⟨false, []⟩ : Path).join (Path.ofString (w.childPath file))).Same _
  rw [hjoin]
  exact Path.Same.refl _

/-! ## Chains of a document -/

/-- The classes are the chain of an element of the document. -/
def DocumentChain (mode : RootMode) (html : List Char) (chain : List String) : Prop :=
  ∃ roots, selectRoots (Document.read mode html) = .ok roots ∧
    ∃ n ∈ roots, ∃ r ∈ n.routes, r.Reached 0 ∧ r.chain = chain

/-- No Block of the document has a slash in its class. -/
def SlashFree (w : StylesheetWriter) (mode : RootMode) (html : List Char) : Prop :=
  ∀ chain, DocumentChain mode html chain → ∀ b ∈ chain, w.conventions.isIndependent b = true →
    '/' ∉ b.toList

variable {roots : List Node} {t : Component} {s q : Sheet}

/-- The ways through a root tree are the chains of the document that begin with its class. -/
theorem mem_chains_of_root (hroots : selectRoots (Document.read mode html) = .ok roots)
    (ht : t ∈ w.rootTrees mode roots) {rest : List String} :
    t.base :: rest ∈ t.paths.map Prod.fst ↔ DocumentChain mode html (t.base :: rest) := by
  rcases rootTrees_spec t ht with ⟨hcoherent, hblock⟩
  constructor
  · intro hmem
    rcases mem_rootTrees_chains.mp ⟨t, ht, hmem⟩ with ⟨u, hu, hmem⟩
    rcases mem_blockTrees.mp hu with ⟨⟨n, hn, hbuild⟩, _⟩
    exact ⟨roots, hroots, n, hn, (Conventions.mem_chains_iff hbuild).mp hmem⟩
  · rintro ⟨roots', hroots', n, hn, hroute⟩
    obtain rfl : roots = roots' := Except.ok.inj (hroots.symm.trans hroots')
    obtain ⟨u, hbuild⟩ := Conventions.exists_build (c := w.conventions)
      ((selectRoots_spec hroots).1 n hn)
    have hmem := (Conventions.mem_chains_iff hbuild).mpr hroute
    -- the element is a Block, because its class is that of the tree
    have hbase : ∀ {v : Component}, t.base :: rest ∈ v.paths.map Prod.fst → v.base = t.base := by
      intro v hv
      rcases List.mem_map.mp hv with ⟨p, hp, he⟩
      have hhead := Component.head?_of_mem_paths hp
      rw [he] at hhead
      exact (Option.some.inj hhead).symm
    have hu : u ∈ w.blockTrees roots := by
      refine mem_blockTrees.mpr ⟨⟨n, hn, hbuild⟩, ?_⟩
      rw [(Conventions.treeCoherent_of_build 0 n u hbuild).root.kind, hbase hmem,
        ← hcoherent.root.kind]
      exact hblock
    rcases mem_rootTrees_chains.mpr ⟨u, hu, hmem⟩ with ⟨v, hv, hmem⟩
    obtain rfl : v = t :=
      List.inj_on_of_nodup_map (rootTrees_bases_nodup (exists_root_of_page hroots)) hv ht (hbase hmem)
    exact hmem

/-- The ways that go on below the Block of a sheet are chains of the document. -/
theorem mem_chains_of_sheet (hroots : selectRoots (Document.read mode html) = .ok roots)
    (ht : t ∈ w.rootTrees mode roots) (hs : w.SheetOf mode t s) {below : List String}
    (hbelow : below ≠ []) :
    s.node.base :: below ∈ s.node.paths.map Prod.fst ↔
      DocumentChain mode html (s.chain ++ below) := by
  have hhead := Component.head?_of_mem_paths hs.mem_paths
  rcases List.head?_eq_some_iff.mp hhead with ⟨rest, hrest⟩
  have hchain : s.chain = t.base :: rest := hrest
  rw [hchain, List.cons_append, ← mem_chains_of_root hroots ht, ← List.cons_append, ← hchain]
  exact ((rootTrees_spec t ht).1.mem_chains_below s.place hs.mem_paths hbelow).symm

/-! ## Files of sheets -/

theorem slash_notMem_format {b : String} (h : '/' ∉ b.toList) (case : FileCase) :
    '/' ∉ (FileName.format b case).toList :=
  fun hmem => h (FileName.mem_of_mem_format (by decide) (by decide) hmem)

/-- The file of a page. -/
theorem filePath_of_page (hs : w.SheetOf mode t s) (hroot : s.node.isRoot = true) :
    w.filePath mode s.chain = w.rootFile s.node.base ++ ".scss" := by
  rcases hs.isRoot.mp hroot with ⟨rfl, hlength⟩
  rw [filePath, if_pos (by omega), List.getLastD_eq_getLast?, hs.last]
  rfl

/-- Every other file is in the directory of child Blocks. -/
theorem filePath_of_not_page (hs : w.SheetOf mode t s) (hroot : s.node.isRoot = false) :
    w.filePath mode s.chain = w.childPath (w.fileBase s.chain) := by
  refine filePath_of_listed ?_
  cases mode with
  | selection => exact Or.inl rfl
  | root =>
    right
    have hne : s.chain.length ≠ 1 := by
      intro hlength
      rw [hs.isRoot.mpr ⟨rfl, hlength⟩] at hroot
      cases hroot
    have hpos := hs.length_pos
    omega

theorem slash_notMem_fileBase (hs : w.SheetOf mode t s) (h : '/' ∉ s.node.base.toList) :
    '/' ∉ (w.fileBase s.chain).toList := by
  rw [fileBase, List.getLastD_eq_getLast?, hs.last]
  split
  · exact slash_notMem_format h _
  · exact slash_notMem_format h _

/-! ## Where the links of a sheet lead -/

/-- The link to the Block above leads to the file of its sheet. -/
def ParentLinkLeads (w : StylesheetWriter) (mode : RootMode) (sheets : List Sheet) (s : Sheet) :
    Prop :=
  ∀ link ∈ w.parentLinkOf s, ∃ q ∈ sheets, s.Below q ∧
    LeadsTo (w.fileOf mode s).path link (w.fileOf mode q).path

/-- The links to child Blocks lead to files. -/
def ChildLinksLead (w : StylesheetWriter) (mode : RootMode) (files : List GeneratedFile)
    (s : Sheet) : Prop :=
  ∀ link ∈ w.childLinksOf s.node, ∃ f ∈ files, LeadsTo (w.fileOf mode s).path link f.path

/-- The link to a child of the Block leads to the file of the child. -/
theorem leadsTo_own_child (hs : w.SheetOf mode t s) (hslash : '/' ∉ s.node.base.toList)
    {b : String} (hb : '/' ∉ b.toList) :
    LeadsTo (w.filePath mode s.chain) (w.childTarget s.node.isRoot b)
      (w.childPath (w.childFile b)) := by
  cases hroot : s.node.isRoot with
  | true =>
    rw [filePath_of_page hs hroot]
    exact leadsTo_child (slash_notMem_format hslash _) _
  | false =>
    rw [filePath_of_not_page hs hroot]
    exact (leadsTo_sibling_iff (slash_notMem_fileBase hs hslash) (slash_notMem_format hb _)
      (slash_notMem_format hb _)).mpr rfl

theorem parentLink_page {p : Component} (h : p.isRoot = true) :
    w.parentLink (some p) ((some (w.rootFile p.base)).filter (· != "")) =
      "../" ++ w.rootFile p.base := by
  rw [Option.filter_some]
  split
  · rfl
  · -- without a name handed down, the link is made from the class
    simp [parentLink, h, rootFile]

theorem parentLink_child {p : Component} (h : p.isRoot = false) :
    w.parentLink (some p) none = w.childFile p.base := by
  simp [parentLink, h, childFile]

theorem isRoot_of_below (hs : w.SheetOf mode t s) (hq : w.SheetOf mode t q) (hbelow : s.Below q) :
    s.node.isRoot = false := by
  have hpos := hq.length_pos
  refine Bool.eq_false_iff.mpr fun hroot => ?_
  have hlength := (hs.isRoot.mp hroot).2
  rw [hbelow.chain, List.length_append, List.length_singleton] at hlength
  omega

/-- The link to the Block above leads to its file, unless the directory of child Blocks is not one
level below the file of a page, or the file of a root is named by other rules than the link. -/
theorem leadsTo_parent_iff (hs : w.SheetOf mode t s) (hq : w.SheetOf mode t q)
    (hbelow : s.Below q)
    (hfile : s.rootFile = if q.node.isRoot then some (w.rootFile t.base) else none)
    (hslash : '/' ∉ s.node.base.toList) (hslashq : '/' ∉ q.node.base.toList) {link : String}
    (hlink : w.parentLinkOf s = some link) :
    LeadsTo (w.filePath mode s.chain) link (w.filePath mode q.chain) ↔
      (q.chain.length = 1 → (mode = .root → w.OneLevelBelow) ∧
        (mode = .selection → w.childFile q.node.base = w.rootFile q.node.base)) := by
  have hpos := hq.length_pos
  have hchild := isRoot_of_below hs hq hbelow
  have hrootFile : '/' ∉ (w.rootFile q.node.base).toList := slash_notMem_format hslashq _
  have hchildFile : '/' ∉ (w.childFile q.node.base).toList := slash_notMem_format hslashq _
  rw [parentLinkOf, if_neg (by simp [hchild]), hbelow.parent, hfile, Option.map_some] at hlink
  obtain rfl := Option.some.inj hlink
  rw [filePath_of_not_page hs hchild]
  cases hroot : q.node.isRoot with
  | true =>
    rcases hq.isRoot.mp hroot with ⟨rfl, hlength⟩
    have hbase : t.base = q.node.base := by
      have hhead := Component.head?_of_mem_paths hq.mem_paths
      rw [Sheet.place, hq.chain_of_length_one hlength] at hhead
      exact (Option.some.inj hhead).symm
    rw [if_pos rfl, hbase, parentLink_page hroot, filePath_of_page hq hroot,
      leadsTo_page_iff (slash_notMem_fileBase hs hslash) hrootFile]
    simp [hlength]
  | false =>
    rw [filePath_of_not_page hq hroot, if_neg (by simp), Option.filter_none,
      parentLink_child hroot, leadsTo_sibling_iff (slash_notMem_fileBase hs hslash) hchildFile
        (slash_notMem_fileBase hq hslashq), fileBase, List.getLastD_eq_getLast?, hq.last]
    by_cases hlength : q.chain.length = 1
    · have hmode : mode ≠ .root := fun hmode => by
        rw [hq.isRoot.mpr ⟨hmode, hlength⟩] at hroot
        cases hroot
      cases mode with
      | root => exact absurd rfl hmode
      | selection => simp [hlength]
    · simp [hlength, show ¬ q.chain.length ≤ 1 by omega]

/-- A root has no Block above. -/
theorem parentLinkOf_rootSheet : w.parentLinkOf (rootSheet mode t) = none := by
  rw [parentLinkOf]
  split
  · rfl
  · rfl

/-- There is only one way to the Block above, so the link leads to its file or to none. -/
theorem parentLinkLeads_iff_leadsTo {sheets : List Sheet} (hq : q ∈ sheets) (hbelow : s.Below q)
    {link : String} (hlink : w.parentLinkOf s = some link) :
    w.ParentLinkLeads mode sheets s ↔
      LeadsTo (w.filePath mode s.chain) link (w.filePath mode q.chain) := by
  constructor
  · intro h
    rcases h link hlink with ⟨q', _, hbelow', hleads'⟩
    have hchain : q'.chain = q.chain :=
      List.append_inj_left' (hbelow'.chain.symm.trans hbelow.chain) rfl
    rwa [fileOf, fileOf, hchain] at hleads'
  · intro h link' hlink'
    obtain rfl : link = link' := Option.some.inj (hlink.symm.trans hlink')
    exact ⟨q, hq, hbelow, h⟩

/-! ## All links -/

section Document

variable (hroots : selectRoots (Document.read mode html) = .ok roots)
  (hslash : w.SlashFree mode html)

include hroots

theorem sheets_eq :
    w.sheets mode html = (w.rootTrees mode roots).flatMap (w.rootSheets mode) := by
  unfold sheets
  rw [hroots]

theorem mem_sheets : s ∈ w.sheets mode html ↔
    ∃ t ∈ w.rootTrees mode roots, s ∈ w.rootSheets mode t := by
  rw [sheets_eq hroots, List.mem_flatMap]

/-- There is one sheet for every chain of Blocks. -/
theorem mem_sheet_chains {chain : List String} :
    chain ∈ (w.sheets mode html).map Sheet.chain ↔ w.BlockChain mode html chain := by
  rw [sheets_eq hroots, ← mem_blockChains hroots, ← flatMap_rootSheets_places, List.map_map]
  rfl

include hslash

theorem slash_notMem_of_sheet (ht : t ∈ w.rootTrees mode roots) (hs : s ∈ w.rootSheets mode t) :
    '/' ∉ s.node.base.toList := by
  have hsheet := sheetOf_of_mem ht hs
  have hmem := List.mem_of_getLast? hsheet.last
  have hchain : w.BlockChain mode html s.chain :=
    (mem_sheet_chains hroots).mp (List.mem_map_of_mem ((mem_sheets hroots).mpr ⟨t, ht, hs⟩))
  exact hslash s.chain hchain.2 _ hmem (hsheet.blocks _ hmem)

/-- The link to the Block above may fail to lead to its file only if the Block above is a root. -/
theorem parentLinkLeads_iff (ht : t ∈ w.rootTrees mode roots) (hs : s ∈ w.rootSheets mode t) :
    w.ParentLinkLeads mode (w.sheets mode html) s ↔
      ∀ r b, s.chain = [r, b] → (mode = .root → w.OneLevelBelow) ∧
        (mode = .selection → w.childFile r = w.rootFile r) := by
  rcases mem_rootSheets hs with rfl | ⟨q, hq, hbelow, hfile⟩
  · refine iff_of_true ?_ ?_
    · intro link hlink
      rw [parentLinkOf_rootSheet] at hlink
      cases hlink
    · intro r b hchain
      exact absurd (congrArg List.length hchain) (by simp [rootSheet])
  have hsheet := sheetOf_of_mem ht hs
  have hqsheet := sheetOf_of_mem ht hq
  have hchild := isRoot_of_below hsheet hqsheet hbelow
  obtain ⟨link, hlink⟩ : ∃ link, w.parentLinkOf s = some link := by
    rw [parentLinkOf, if_neg (by simp [hchild]), hbelow.parent]
    exact ⟨_, rfl⟩
  rw [parentLinkLeads_iff_leadsTo ((mem_sheets hroots).mpr ⟨t, ht, hq⟩) hbelow hlink,
    leadsTo_parent_iff hsheet hqsheet hbelow hfile (slash_notMem_of_sheet hroots hslash ht hs)
      (slash_notMem_of_sheet hroots hslash ht hq) hlink, hbelow.chain]
  constructor
  · intro h r b hchain
    have hlength : q.chain.length = 1 := by
      have := congrArg List.length hchain
      simpa using this
    rw [hqsheet.chain_of_length_one hlength] at hchain
    obtain rfl : q.node.base = r := (List.cons.inj hchain).1
    exact h hlength
  · intro h hlength
    exact h _ s.node.base (by rw [hqsheet.chain_of_length_one hlength]; rfl)

/-- The links to child Blocks may fail to lead to files only if they go through Elements or
third-party classes. -/
theorem childLinksLead_iff (ht : t ∈ w.rootTrees mode roots) (hs : s ∈ w.rootSheets mode t) :
    w.ChildLinksLead mode (w.filesFor mode (w.rootTrees mode roots)) s ↔
      ∀ es b, es ≠ [] → (∀ e ∈ es, w.conventions.isIndependent e = false) →
        w.conventions.isIndependent b = true → DocumentChain mode html (s.chain ++ (es ++ [b])) →
        ∃ f ∈ w.filesFor mode (w.rootTrees mode roots),
          LeadsTo (w.filePath mode s.chain) (w.childFile b) f.path := by
  have hsheet := sheetOf_of_mem ht hs
  have hlinks : ∀ {link}, link ∈ w.childLinksOf s.node ↔ ∃ es b,
      DocumentChain mode html (s.chain ++ (es ++ [b])) ∧
        (∀ e ∈ es, w.conventions.isIndependent e = false) ∧
        w.conventions.isIndependent b = true ∧
        link = w.childTarget (s.node.isRoot && es.isEmpty) b := by
    intro link
    rw [mem_childLinksOf hsheet.coherent hsheet.below]
    refine exists_congr fun es => exists_congr fun b => ?_
    rw [mem_chains_of_sheet hroots ht hsheet (by simp)]
  constructor
  · intro h es b hes hkinds hb hchain
    refine h _ (hlinks.mpr ⟨es, b, hchain, hkinds, hb, ?_⟩)
    simp [hes, childTarget]
  · intro h link hlink
    rcases hlinks.mp hlink with ⟨es, b, hchain, hkinds, hb, rfl⟩
    by_cases hes : es = []
    · -- a child of the Block has a sheet, and so a file
      subst hes
      have hblock : w.BlockChain mode html (s.chain ++ [b]) := by
        refine ⟨?_, hchain⟩
        intro b' hb'
        rcases List.mem_append.mp hb' with hb' | hb'
        · exact hsheet.blocks b' hb'
        · rw [List.mem_singleton.mp hb']
          exact hb
      rcases List.mem_map.mp ((mem_sheet_chains hroots).mpr hblock) with ⟨s', hs', hchain'⟩
      refine ⟨w.fileOf mode s', ?_, ?_⟩
      · rw [filesFor, flatMap_rootFiles_eq, ← sheets_eq hroots]
        exact List.mem_append_left _ (List.mem_map_of_mem hs')
      · have hne : s.chain ≠ [] := List.ne_nil_of_length_pos hsheet.length_pos
        have hslashb : '/' ∉ b.toList := hslash _ hchain b (by simp) hb
        have hleads := leadsTo_own_child hsheet (slash_notMem_of_sheet hroots hslash ht hs) hslashb
        rw [fileOf, fileOf, hchain', filePath_concat hne]
        simpa using hleads
    · have hf := h es b hes hkinds hb hchain
      simpa [hes, childTarget, fileOf] using hf

end Document

/-- Beside the files of the sheets there is the index at most. -/
theorem exists_index_of_generate (h : w.generate mode html = .ok files) :
    ∃ index, files = (w.sheets mode html).map (w.fileOf mode) ++ index ∧
      ∀ f ∈ index, f.path = w.childPath "index" := by
  obtain ⟨roots, hroots, rfl⟩ := exists_roots_of_generate h
  refine ⟨w.indexFile (unique ((w.rootTrees mode roots).flatMap (w.useLines mode))), ?_, fun f hf => ?_⟩
  · rw [filesFor, flatMap_rootFiles_eq, sheets_eq hroots]
  · unfold indexFile at hf
    split at hf
    · cases hf
    · rw [List.mem_singleton.mp hf, childPath, String.append_assoc, String.append_assoc]
      rfl

/-- The links of all files lead to files, those to the Block above to the file of that Block, just
if none of three things goes wrong: on a page, Blocks below the root with a directory that is not
one level below; in a selection, Blocks below a root whose file is named by other rules; and Blocks
below Elements or third-party classes, unless the link to them meets another file. -/
theorem links_lead_iff (h : w.generate mode html = .ok files) (hslash : w.SlashFree mode html) :
    (∃ index, files = (w.sheets mode html).map (w.fileOf mode) ++ index ∧
      ∀ f ∈ index, f.path = w.indexPath) ∧
    (∀ s ∈ w.sheets mode html, ∀ link ∈ w.linksOf s,
      Written (linkComment link) (w.fileOf mode s).content) ∧
    ((∀ s ∈ w.sheets mode html,
        w.ParentLinkLeads mode (w.sheets mode html) s ∧ w.ChildLinksLead mode files s) ↔
      (∀ r b, w.BlockChain mode html [r, b] → (mode = .root → w.OneLevelBelow) ∧
        (mode = .selection → w.childFile r = w.rootFile r)) ∧
      ∀ chain es b, w.BlockChain mode html chain → es ≠ [] →
        (∀ e ∈ es, w.conventions.isIndependent e = false) →
        w.conventions.isIndependent b = true → DocumentChain mode html (chain ++ (es ++ [b])) →
        ∃ f ∈ files, LeadsTo (w.filePath mode chain) (w.childFile b) f.path) := by
  rcases exists_roots_of_generate h with ⟨roots, hroots, rfl⟩
  refine ⟨⟨w.indexFile (unique ((w.rootTrees mode roots).flatMap (w.useLines mode))), ?_, ?_⟩,
    fun s _ link hlink => written_of_mem_linksOf hlink mode, ?_⟩
  · rw [filesFor, flatMap_rootFiles_eq, sheets_eq hroots]
  · intro f hf
    rw [indexFile] at hf
    split at hf
    · cases hf
    · rw [List.mem_singleton.mp hf]
      rfl
  · -- every sheet is that of a chain, and every chain has a sheet
    have hsheet : ∀ {chain}, w.BlockChain mode html chain →
        ∃ t ∈ w.rootTrees mode roots, ∃ s ∈ w.rootSheets mode t, s.chain = chain := by
      intro chain hchain
      rcases List.mem_map.mp ((mem_sheet_chains hroots).mpr hchain) with ⟨s, hs, hs'⟩
      rcases (mem_sheets hroots).mp hs with ⟨t, ht, hs⟩
      exact ⟨t, ht, s, hs, hs'⟩
    constructor
    · intro hleads
      constructor
      · intro r b hchain
        rcases hsheet hchain with ⟨t, ht, s, hs, hs'⟩
        have hparent := (hleads s ((mem_sheets hroots).mpr ⟨t, ht, hs⟩)).1
        exact (parentLinkLeads_iff hroots hslash ht hs).mp hparent r b hs'
      · intro chain es b hchain
        rcases hsheet hchain with ⟨t, ht, s, hs, rfl⟩
        have hchildren := (hleads s ((mem_sheets hroots).mpr ⟨t, ht, hs⟩)).2
        exact (childLinksLead_iff hroots hslash ht hs).mp hchildren es b
    · rintro ⟨hparents, hchildren⟩ s hs
      have hchain := (mem_sheet_chains hroots).mp (List.mem_map_of_mem hs)
      rcases (mem_sheets hroots).mp hs with ⟨t, ht, hs⟩
      refine ⟨(parentLinkLeads_iff hroots hslash ht hs).mpr fun r b he => ?_,
        (childLinksLead_iff hroots hslash ht hs).mpr fun es b => hchildren s.chain es b hchain⟩
      exact hparents r b (he ▸ hchain)

/-- On a page with one Block below its root, all links lead to files. -/
theorem links_lead_on_page :
    let w : StylesheetWriter := ⟨{}, {}⟩
    let html := "<p class=a-b><b class=c-d></b></p>".toList
    ∃ files, w.generate .root html = .ok files ∧
      (w.sheets .root html).map w.linksOf = [["scss/c-d"], ["../a-b"]] ∧
      ∀ s ∈ w.sheets .root html,
        w.ParentLinkLeads .root (w.sheets .root html) s ∧ w.ChildLinksLead .root files s := by
  intro w html
  have hcomputed : ((selectRoots (Document.read .root html)).map fun roots =>
      ((roots.flatMap Node.routes).filter (·.Reached 0)).map Route.chain) =
      .ok [["a-b"], ["a-b", "c-d"]] := by decide +kernel
  rcases map_eq_ok.mp hcomputed with ⟨roots, hroots, hchains⟩
  have hchain : ∀ chain, DocumentChain .root html chain → chain ∈ [["a-b"], ["a-b", "c-d"]] := by
    rintro chain ⟨roots', hroots', n, hn, r, hr, hreached, rfl⟩
    obtain rfl : roots = roots' := Except.ok.inj (hroots.symm.trans hroots')
    rw [← hchains]
    exact List.mem_map_of_mem (List.mem_filter.mpr
      ⟨List.mem_flatMap.mpr ⟨n, hn, hr⟩, decide_eq_true hreached⟩)
  have hslash : w.SlashFree .root html := by
    intro chain h b hb _
    have hplain : ∀ chain ∈ [["a-b"], ["a-b", "c-d"]], ∀ b ∈ chain, '/' ∉ b.toList := by decide
    exact hplain chain (hchain chain h) b hb
  have hlevel : w.OneLevelBelow := by
    have hpath : w.childDirectory = ⟨false, ["scss"]⟩ := by decide +kernel
    exact ⟨"scss", by decide, hpath ▸ Path.Same.refl _⟩
  refine ⟨_, generate_eq hroots, by decide +kernel, ?_⟩
  refine (links_lead_iff (generate_eq hroots) hslash).2.2.mpr ⟨?_, ?_⟩
  · intro r b _
    exact ⟨fun _ => hlevel, fun h => by cases h⟩
  · -- no chain is long enough to have an Element above a Block
    intro chain es b hblock hes _ _ h
    have hlengths : ∀ chain ∈ [["a-b"], ["a-b", "c-d"]], 1 ≤ chain.length ∧ chain.length ≤ 2 := by
      decide
    have hshort := (hlengths _ (hchain _ h)).2
    have hpos := (hlengths _ (hchain _ hblock.2)).1
    have hes := List.length_pos_of_ne_nil hes
    simp only [List.length_append, List.length_singleton] at hshort
    omega

/-- In a selection, a root file that is named by other rules than the files of child Blocks is not
where the link from a child Block leads. -/
theorem parent_link_astray :
    ¬ ∀ (w : StylesheetWriter) mode html files, w.generate mode html = .ok files →
      ∀ s ∈ w.sheets mode html,
        w.ParentLinkLeads mode (w.sheets mode html) s ∧ w.ChildLinksLead mode files s := by
  intro h
  let w : StylesheetWriter := ⟨{ rootFileCase := .pascal }, {}⟩
  let html := "<p class=a-b><b class=c-d></b></p>".toList
  have hcomputed : ((selectRoots (Document.read .selection html)).map fun roots =>
      ((w.rootTrees .selection roots).flatMap (w.rootSheets .selection)).map fun s =>
        (s.chain, w.parentLinkOf s, (w.fileOf .selection s).path)) =
      .ok [(["a-b"], none, "scss/AB.scss"), (["a-b", "c-d"], some "a-b", "scss/c-d.scss")] := by
    decide +kernel
  rcases map_eq_ok.mp hcomputed with ⟨roots, hroots, hsheets⟩
  rw [← sheets_eq hroots] at hsheets
  have hmem : (["a-b", "c-d"], some "a-b", "scss/c-d.scss") ∈
      (w.sheets .selection html).map fun s =>
        (s.chain, w.parentLinkOf s, (w.fileOf .selection s).path) := by
    rw [hsheets]
    decide
  rcases List.mem_map.mp hmem with ⟨s, hs, he⟩
  simp only [Prod.mk.injEq] at he
  rcases he with ⟨hchain, hlink, hpath⟩
  rcases (h w .selection html _ (generate_eq hroots) s hs).1 "a-b" hlink with
    ⟨q, hq, hbelow, hleads⟩
  -- the sheet of the Block above is that of the root
  have hqchain : q.chain = ["a-b"] := by
    have happend := hbelow.chain.symm.trans hchain
    exact List.append_inj_left' (happend.trans (show _ = ["a-b"] ++ ["c-d"] from rfl)) rfl
  have hqmem := List.mem_map_of_mem (f := fun s : Sheet =>
    (s.chain, w.parentLinkOf s, (w.fileOf .selection s).path)) hq
  rw [hsheets, hqchain] at hqmem
  obtain ⟨_, hqpath⟩ : w.parentLinkOf q = none ∧
      (w.fileOf .selection q).path = "scss/AB.scss" := by simpa using hqmem
  rw [hpath, hqpath] at hleads
  exact absurd (hleads ⟨true, []⟩) (by decide)

end StylesheetWriter

end BlockMarkup
