import BlockMarkup.Proofs.Stylesheet.Sheets

/-! # Links between stylesheets

A stylesheet links to the stylesheet of the Block above, in its first lines, and to those of the
Blocks that it meets below its own, through Elements and third-party classes as well. `linksOf` lists
the links of a sheet, `written_of_mem_linksOf` says that they are in the text, and
`mem_childLinksOf` to which Blocks they are.
-/

namespace BlockMarkup

open Markup (Node RootMode Document)
open Component (base blockPaths blockPathsIn Unmarked)

namespace StylesheetWriter

variable {w : StylesheetWriter}

/-- The comment that a link stands in. -/
def linkComment (link : String) : String := "// @rel/" ++ link ++ ".scss"

/-- The link to the file of a child Block, as seen from the file of the node above it. -/
def childTarget (w : StylesheetWriter) (fromRoot : Bool) (base : String) : String :=
  if fromRoot then w.options.childDir ++ "/" ++ w.childFile base else w.childFile base

mutual

/-- The links to child Blocks in the text of a node. -/
def childLinksOf (w : StylesheetWriter) : Component → List String
  | .mk _ _ _ _ _ _ _ o _ r _ => childLinks w r o

/-- The links to child Blocks in the lines for the children of a node. -/
def childLinks (w : StylesheetWriter) (fromRoot : Bool) : List Component → List String
  | [] => []
  | c :: rest =>
    (if c.independent then [w.childTarget fromRoot c.base] else childLinksOf w c) ++
      childLinks w fromRoot rest

end

/-- The link to the file of the Block above, if there is one and the sheet is not that of a page. -/
def parentLinkOf (w : StylesheetWriter) (s : Sheet) : Option String :=
  if s.node.isRoot then none
  else s.parent.map fun p => w.parentLink (some p) (s.rootFile.filter (· != ""))

/-- The links of a sheet. -/
def linksOf (w : StylesheetWriter) (s : Sheet) : List String :=
  (w.parentLinkOf s).toList ++ w.childLinksOf s.node

/-! ## Links in the text -/

/-- The part stands somewhere in the text. -/
def Written (part text : String) : Prop := part.toList <:+: text.toList

theorem Written.append_left {part text : String} (h : Written part text) (before : String) :
    Written part (before ++ text) := by
  rw [Written, String.toList_append]
  exact List.infix_append_of_infix_right h

theorem Written.append_right {part text : String} (h : Written part text) (after : String) :
    Written part (text ++ after) := by
  rw [Written, String.toList_append]
  exact List.infix_append_of_infix_left h

theorem infix_intercalate {sep : List Char} {xs : List (List Char)} {x : List Char} (h : x ∈ xs) :
    x <:+: sep.intercalate xs := by
  induction xs with
  | nil => cases h
  | cons y rest ih =>
    cases rest with
    | nil =>
      rw [List.intercalate_singleton]
      exact List.mem_singleton.mp h ▸ List.infix_rfl
    | cons z rest =>
      rw [List.intercalate_cons_cons]
      rcases List.mem_cons.mp h with rfl | h
      · exact List.infix_append_of_infix_left (List.infix_append_of_infix_left List.infix_rfl)
      · exact List.infix_append_of_infix_right (ih h)

/-- A part whose last character is no blank stays when blanks at the end are cut off. -/
theorem infix_trimmed {part s : List Char} {ch : Char} (h : part <:+: s)
    (hlast : part.getLast? = some ch) (hch : Text.isBlank ch = false) :
    part <:+: (Text.trimLeft s.reverse).reverse := by
  rcases h with ⟨before, after, rfl⟩
  have hkept : (part.reverse ++ before.reverse).dropWhile Text.isBlank =
      part.reverse ++ before.reverse := by
    rcases List.head?_eq_some_iff.mp (List.head?_reverse.trans hlast) with ⟨rest, hrest⟩
    rw [hrest, List.cons_append, List.dropWhile_cons_of_neg (by simp [hch])]
  rw [Text.trimLeft, List.reverse_append, List.reverse_append, List.dropWhile_append, hkept]
  split
  · exact ⟨before, [], by simp⟩
  · exact ⟨before, ((after.reverse.dropWhile Text.isBlank)).reverse, by simp⟩

theorem written_joinLines {link l : String} {lines : List String} (hl : l ∈ lines)
    (h : Written (linkComment link) l) : Written (linkComment link) (joinLines lines) := by
  have hjoined : (linkComment link).toList <:+: ("\n".intercalate lines).toList := by
    rw [String.toList_intercalate]
    exact List.IsInfix.trans h (infix_intercalate (List.mem_map_of_mem hl))
  have hlast : (linkComment link).toList.getLast? = some 's' := by
    rw [linkComment, String.toList_append, List.getLast?_append]
    rfl
  rw [Written, joinLines, String.toList_ofList]
  exact infix_trimmed hjoined hlast (by decide)

theorem written_childLines (level : Nat) (fromRoot : Bool) (b : String) :
    ∃ l ∈ w.childLines level fromRoot b, Written (linkComment (w.childTarget fromRoot b)) l := by
  have hline : Written (linkComment (w.childTarget fromRoot b))
      (line (level + 1) (w.childLink fromRoot b)) :=
    Written.append_left List.infix_rfl _
  rw [childLines]
  split
  · exact ⟨_, by simp, hline⟩
  · rename_i hmixins
    rcases List.exists_mem_of_ne_nil _ hmixins with ⟨mixin, hmixin⟩
    exact ⟨_, List.mem_flatMap.mpr ⟨mixin, hmixin, by simp⟩, hline⟩

mutual

theorem written_blockBody {link : String} (level : Nat) (asRoot : Bool) : ∀ x : Component,
    link ∈ w.childLinksOf x → Written (linkComment link) (w.blockBody level asRoot x)
  | .mk b i m v s n is o t r d => by
    intro h
    rw [childLinksOf] at h
    rcases written_childrenLines level r o h with ⟨l, hl, hwritten⟩
    rw [blockBody]
    exact written_joinLines (by simp [hl]) hwritten

theorem written_childrenLines {link : String} (level : Nat) (fromRoot : Bool) :
    ∀ xs : List Component, link ∈ w.childLinks fromRoot xs →
      ∃ l ∈ w.childrenLines level fromRoot xs, Written (linkComment link) l
  | [] => by simp [childLinks]
  | c :: rest => by
    intro h
    rw [childLinks, List.mem_append] at h
    rw [childrenLines]
    rcases h with h | h
    · by_cases hblock : c.independent
      · rw [if_pos hblock, List.mem_singleton] at h
        subst h
        rcases written_childLines (w := w) level fromRoot c.base with ⟨l, hl, hwritten⟩
        exact ⟨l, by simp [hblock, hl], hwritten⟩
      · rw [if_neg hblock] at h
        exact ⟨_, by simp [hblock], written_blockBody (level + 1) false c h⟩
    · rcases written_childrenLines level fromRoot rest h with ⟨l, hl, hwritten⟩
      exact ⟨l, List.mem_append_right _ hl, hwritten⟩

end

theorem written_header (before link : String) :
    Written (linkComment link) (before ++ "\n// @rel/" ++ link ++ ".scss\n\n") :=
  ⟨before.toList ++ ['\n'], ['\n', '\n'], by simp [linkComment]⟩

/-- Every link of a sheet is in the text of its file. -/
theorem written_of_mem_linksOf {s : Sheet} {link : String} (h : link ∈ w.linksOf s)
    (mode : RootMode) : Written (linkComment link) (w.fileOf mode s).content := by
  rcases List.mem_append.mp h with h | h
  · rw [Option.mem_toList, parentLinkOf] at h
    split at h
    · cases h
    · rename_i hroot
      rcases Option.map_eq_some_iff.mp h with ⟨p, hp, rfl⟩
      rw [fileOf, fileContent, header, if_neg hroot, hp]
      have hwritten := written_header ("@use \"" ++ w.options.globalModule ++ "\" as *;\n")
        (w.parentLink (some p) (s.rootFile.filter (· != "")))
      exact ((((hwritten.append_right _).append_right _).append_right _).append_right _).append_right _
  · have hbody := written_blockBody 1 s.node.isRoot s.node h
    exact (hbody.append_left _).append_right _

/-! ## Linked Blocks -/

theorem mem_childLinks {fromRoot : Bool} {xs : List Component} {link : String} :
    link ∈ w.childLinks fromRoot xs ↔
      ∃ y ∈ xs, if y.independent then link = w.childTarget fromRoot y.base
        else link ∈ w.childLinksOf y := by
  induction xs with
  | nil => simp [childLinks]
  | cons y rest ih =>
    simp only [childLinks, List.mem_append, ih, List.exists_mem_cons_iff]
    split <;> simp

/-- The links below a node are those to the Blocks that it leads to without Blocks between. Only
the links to its children are written as from the root of a page. -/
theorem mem_childLinksOf {x : Component} (hx : w.conventions.TreeCoherent x) {link : String} :
    (∀ y ∈ x.ordered, y.Unmarked) → (link ∈ w.childLinksOf x ↔
      ∃ es b, x.base :: (es ++ [b]) ∈ x.paths.map Prod.fst ∧
        (∀ e ∈ es, w.conventions.isIndependent e = false) ∧
        w.conventions.isIndependent b = true ∧
        link = w.childTarget (x.isRoot && es.isEmpty) b) := by
  refine hx.induction ?_
  clear hx x
  intro x hx ih hmarks
  have hunfold : w.childLinksOf x = w.childLinks x.isRoot x.ordered := by
    cases x
    rw [childLinksOf]
    rfl
  rw [hunfold, mem_childLinks]
  constructor
  · rintro ⟨y, hy, hlink⟩
    have hkind := (hx.child hy).root.kind
    split at hlink
    · -- a Block among the children is led to itself
      rename_i hblock
      refine ⟨[], y.base, ?_, by simp, hkind ▸ hblock, by simpa using hlink⟩
      refine (Component.mem_chains_cons (by simp)).mpr ⟨rfl, y, hy, ?_⟩
      exact List.mem_map_of_mem (Component.mem_paths.mpr (Or.inl rfl))
    · -- the Block stands below an Element, whose links are those of the node
      rename_i hblock
      rcases Component.unmarked_iff.mp (hmarks y hy) with ⟨hyroot, hybelow⟩
      rcases (ih y hy hybelow).mp hlink with ⟨es, b, hmem, hes, hb, rfl⟩
      refine ⟨y.base :: es, b, ?_, ?_, hb, by simp [hyroot]⟩
      · exact (Component.mem_chains_cons (by simp)).mpr ⟨rfl, y, hy, hmem⟩
      · rw [List.forall_mem_cons, ← hkind]
        exact ⟨by simpa using hblock, hes⟩
  · rintro ⟨es, b, hmem, hes, hb, rfl⟩
    -- the chain goes through one of the children, which its first class tells
    rcases (Component.mem_chains_cons (by simp)).mp hmem with ⟨_, y, hy, hmem⟩
    refine ⟨y, hy, ?_⟩
    have hkind := (hx.child hy).root.kind
    rcases List.mem_map.mp hmem with ⟨q, hq, he⟩
    have hhead := Component.head?_of_mem_paths hq
    rw [he] at hhead
    cases es with
    | nil =>
      obtain rfl : b = y.base := Option.some.inj hhead
      rw [if_pos (hkind ▸ hb)]
      simp
    | cons e es =>
      obtain rfl : e = y.base := Option.some.inj hhead
      rw [List.forall_mem_cons, ← hkind] at hes
      rcases Component.unmarked_iff.mp (hmarks y hy) with ⟨hyroot, hybelow⟩
      rw [if_neg (by simp [hes.1])]
      exact (ih y hy hybelow).mpr ⟨es, b, hmem, hes.2, hb, by simp [hyroot]⟩

end StylesheetWriter

end BlockMarkup
