import Mathlib.Data.List.Infix
import BlockMarkup.Proofs.Markup.RawText

/-! # Written trees

Reading gives back what has been written: the trees, their attributes as they are read
(`Node.read_writeIn`). This holds of legible trees (`legibleIn`). Not legible are declarations and
sections, which are written in another form, void elements with content, two texts side by side, and
blanks that reading would join.
-/

namespace BlockMarkup.Markup

open Token (Nameable readBack Scans Texts rawTokens tagToken)

namespace Node

/-! ## Trees -/

mutual

/-- The tree with other attributes, given by those of an element and its name. -/
def mapAttributes (g : String → Attributes → Attributes) : Node → Node
  | .leaf kind s => .leaf kind s
  | .element name attributes children =>
    .element name (g name attributes) (mapAttributesIn g children)

/-- The trees with other attributes. -/
def mapAttributesIn (g : String → Attributes → Attributes) : List Node → List Node
  | [] => []
  | n :: rest => mapAttributes g n :: mapAttributesIn g rest

end

mutual

/-- The text of a node, its attributes as they are. -/
def write (verbatim : Bool) : Node → List Char
  | .leaf kind s => renderLeaf verbatim kind s
  | .element name attributes children =>
    '<' :: (name.toList ++ (attributesText attributes ++
      if children.isEmpty && voidNames.contains name then ['/', '>']
      else
        '>' :: (writeIn (verbatimNames.contains name) children ++
          '<' :: '/' :: (name.toList ++ ['>']))))

/-- The text of the content of an element. -/
def writeIn (verbatim : Bool) : List Node → List Char
  | [] => []
  | n :: rest => write verbatim n ++ writeIn verbatim rest

end

/-- The attributes of an element in the order and with the encoding in which they are written. -/
def arranged (name : String) (attributes : Attributes) : Attributes :=
  (declaredAttributes name attributes).mergeSort attributeLE

theorem renderAttributes_eq (name : String) (attributes : Attributes) :
    renderAttributes name attributes = attributesText (arranged name attributes) := rfl

mutual

theorem renderNode_eq (verbatim : Bool) : ∀ n : Node,
    renderNode verbatim n = write verbatim (n.mapAttributes arranged)
  | .leaf .. => rfl
  | .element name attributes children => by
    have hempty : (mapAttributesIn arranged children).isEmpty = children.isEmpty := by
      cases children <;> rfl
    rw [mapAttributes, write, renderNode, renderAttributes_eq, hempty]
    rw [renderNodes_eq]
    split <;> simp

theorem renderNodes_eq (verbatim : Bool) : ∀ ns : List Node,
    renderNodes verbatim ns = writeIn verbatim (mapAttributesIn arranged ns)
  | [] => rfl
  | n :: rest => by
    rw [mapAttributesIn, writeIn, renderNodes, renderNode_eq, renderNodes_eq]

end

/-! ## What can be read back -/

/-- Whether a node is text. -/
def isText : Node → Bool
  | .leaf .text _ => true
  | _ => false

/-- Whether the content of a leaf is kept as it is: blanks alone are not, unless they matter. -/
def isKept (pre : Bool) (s : List Char) : Bool :=
  pre || !s.all Text.isMarkupBlank || s == ['\n'] || s == [' ']

/-- Whether a leaf is read back from how it is written. -/
def legibleLeaf (pre verbatim : Bool) (kind : LeafKind) (s : List Char) : Bool :=
  isKept pre s &&
    match kind with
    | .text => !s.isEmpty && (!verbatim || s.tails.all fun t => !(['<', '/'].isPrefixOf t))
    | .comment => !verbatim && s.tails.all fun t => !Token.endsComment t
    | .instruction => !verbatim && !s.contains '>'
    | .doctype | .characterData | .declaration => false

mutual

/-- Whether a node is read back from how it is written; `pre` says that it is in an element in which
blanks matter. -/
def legible (pre verbatim : Bool) : Node → Bool
  | .leaf kind s => legibleLeaf pre verbatim kind s
  | .element name attributes children =>
    !verbatim && decide (Nameable name.toList) && decide (WritableAttributes attributes) &&
      (children.isEmpty || !voidNames.contains name) &&
      legibleIn (pre || preformattedNames.contains name) (verbatimNames.contains name) children

/-- Whether nodes side by side are read back from how they are written. -/
def legibleIn (pre verbatim : Bool) : List Node → Bool
  | [] => true
  | n :: rest =>
    legible pre verbatim n && !(n.isText && rest.head?.any isText) && legibleIn pre verbatim rest

end

/-- What is read back of the attributes: their names in lower case, and of equal ones the last. -/
def reread (n : Node) : Node := n.mapAttributes fun _ as => readBack as

/-! ## Building -/

namespace Building

variable {b : Building} {pre : Bool} {n : Node} {ns : List Node} {s : List Char}

/-- Whether the open elements include one in which blanks matter. -/
def isPre (b : Building) : Bool := b.opened.any fun e => preformattedNames.contains e.name

theorem isPre_add : (b.add n).isPre = b.isPre := by
  rw [add, isPre, isPre]
  split
  · rename_i h
    rw [h]
  · rename_i h
    rw [h]
    rfl

theorem voids_add : (b.add n).voids = b.voids := by
  rw [add]
  split <;> rfl

theorem text_add : (b.add n).text = b.text := by
  rw [add]
  split <;> rfl

theorem endText_eq (h : b.text = []) : b.endText = b := by
  rw [endText, h]
  rfl

theorem text_endText : b.endText.text = [] := by
  rw [endText]
  split
  · rename_i h
    exact List.isEmpty_iff.mp h
  · rfl

theorem voids_endText : b.endText.voids = b.voids := by
  rw [endText]
  split
  · rfl
  · exact voids_add

theorem isPre_endText : b.endText.isPre = b.isPre := by
  rw [endText]
  split
  · rfl
  · exact isPre_add

theorem condense_of_isKept (h : isKept b.isPre s = true) : b.condense s = s := by
  rw [condense]
  split
  · rename_i hblank
    rw [Bool.and_eq_true, Bool.not_eq_true', ← isPre] at hblank
    rw [isKept, hblank.1, hblank.2] at h
    have hs : s = ['\n'] ∨ s = [' '] := by simpa using h
    rcases hs with rfl | rfl <;> rfl
  · rfl

theorem foldl_map_text (pieces : List (List Char)) (b : Building) :
    (pieces.map Token.text).foldl step b = { b with text := pieces.reverse ++ b.text } := by
  induction pieces generalizing b with
  | nil => rfl
  | cons piece pieces ih =>
    rw [List.map_cons, List.foldl_cons, ih]
    simp [step]

/-- Texts are collected until something else comes. -/
theorem endText_foldl_texts {ts : List Token} (hts : Texts ts s) (hs : s ≠ []) (hb : b.text = [])
    (hkept : isKept b.isPre s = true) :
    (ts.foldl step b).endText = b.add (.leaf .text s) := by
  obtain ⟨pieces, rfl, rfl⟩ := hts
  have hpieces : pieces ≠ [] := by
    rintro rfl
    exact hs rfl
  have hcondense : condense { b with text := pieces.reverse } pieces.flatten = pieces.flatten :=
    condense_of_isKept hkept
  rw [foldl_map_text, hb, List.append_nil, endText, if_neg (by simpa using hpieces)]
  dsimp only
  rw [List.reverse_reverse, hcondense]
  simp only [add]
  split
  · rw [hb]
  · rw [hb]

/-- The tokens add a node that is no text. -/
def Adds (pre : Bool) (ts : List Token) (n : Node) : Prop :=
  ∀ b : Building, b.voids = [] → b.isPre = pre → ts.foldl step b = b.endText.add n

/-- The tokens build nodes side by side, text only behind something else. -/
def Builds (pre : Bool) (ts : List Token) (ns : List Node) : Prop :=
  ∀ b : Building, b.voids = [] → b.isPre = pre → (b.text = [] ∨ ns.head?.any isText = false) →
    (ts.foldl step b).endText = ns.foldl add b.endText

variable {ts ts' : List Token} {name : String} {as : Attributes}

theorem builds_nil : Builds pre [] [] := fun _ _ _ _ => rfl

theorem Adds.cons (h : Adds pre ts n) (h' : Builds pre ts' ns) :
    Builds pre (ts ++ ts') (n :: ns) := by
  intro b hvoids hpre _
  rw [List.foldl_append, h b hvoids hpre]
  have htext : (b.endText.add n).text = [] := text_add.trans text_endText
  have hrest := h' (b.endText.add n) (by rw [voids_add, voids_endText, hvoids])
    (by rw [isPre_add, isPre_endText, hpre]) (Or.inl htext)
  rw [hrest, endText_eq htext]
  rfl

theorem voids_of_endText {b' : Building} (h : b.endText = b') : b.voids = b'.voids := by
  rw [← h, voids_endText]

theorem isPre_of_endText {b' : Building} (h : b.endText = b') : b.isPre = b'.isPre := by
  rw [← h, isPre_endText]

theorem builds_text (hts : Texts ts s) (hs : s ≠ []) (hkept : isKept pre s = true)
    (hns : ns.head?.any isText = false) (h : Builds pre ts' ns) :
    Builds pre (ts ++ ts') (.leaf .text s :: ns) := by
  intro b hvoids hpre htext
  have hb : b.text = [] := htext.resolve_right (by simp [isText])
  have hend := endText_foldl_texts hts hs hb (by rw [hpre]; exact hkept)
  have hrest := h (ts.foldl step b) (by rw [voids_of_endText hend, voids_add, hvoids])
    (by rw [isPre_of_endText hend, isPre_add, hpre]) (Or.inr hns)
  rw [List.foldl_append, hrest, hend, List.foldl_cons, endText_eq hb]

theorem foldl_add (ns : List Node) (b : Building) (e : OpenElement) (rest : List OpenElement) :
    ns.foldl add { b with opened := e :: rest } =
      { b with opened := { e with content := ns.reverse ++ e.content } :: rest } := by
  induction ns generalizing e with
  | nil => rfl
  | cons n ns ih =>
    rw [List.foldl_cons]
    refine (ih { e with content := n :: e.content }).trans ?_
    simp

theorem closeNamed_head (e : OpenElement) (rest : List OpenElement) (h : b.opened = e :: rest) :
    b.closeNamed e.name = { b with opened := rest }.add e.close := by
  rw [closeNamed, h]
  simp [List.findIdx?_cons, closeMany, closeInnermost, h]

theorem adds_element (hvoid : voidNames.contains name = false)
    (h : Builds (pre || preformattedNames.contains name) ts ns) :
    Adds pre ([.startTag name as] ++ (ts ++ [.endTag name])) (.element name as ns) := by
  intro b hvoids hpre
  have hstart : b.step (.startTag name as) = b.openElement name as := by
    rw [step, hvoid]
    rfl
  have hpre' : (b.openElement name as).isPre = (pre || preformattedNames.contains name) := by
    rw [← hpre, ← isPre_endText (b := b), Bool.or_comm]
    rfl
  have hcontent := h (b.openElement name as) (voids_endText.trans hvoids) hpre' (Or.inl text_endText)
  rw [endText_eq (b := b.openElement name as) text_endText, openElement, foldl_add] at hcontent
  have hend : ∀ b' : Building, b'.voids = [] →
      b'.step (.endTag name) = b'.endText.closeNamed name := by
    intro b' hvoids'
    rw [step, endElement, hvoids']
    rfl
  simp only [List.foldl_append, List.foldl_cons, List.foldl_nil, hstart]
  rw [openElement, hend _ ((voids_of_endText hcontent).trans (voids_endText.trans hvoids)), hcontent]
  refine (closeNamed_head ⟨name, as, ns.reverse ++ []⟩ b.endText.opened rfl).trans ?_
  rw [OpenElement.close, List.append_nil, List.reverse_reverse]

theorem adds_emptyTag : Adds pre [.emptyTag name as] (.element name as []) := by
  intro b hvoids _
  have hend : (b.openElement name as).endElement name =
      (b.openElement name as).endText.closeNamed name := by
    have hvoids' : (b.openElement name as).voids = [] := voids_endText.trans hvoids
    rw [endElement, hvoids']
    rfl
  rw [List.foldl_cons, List.foldl_nil, step, hend,
    endText_eq (b := b.openElement name as) text_endText]
  exact closeNamed_head ⟨name, as, []⟩ b.endText.opened rfl

theorem adds_leaf {kind : LeafKind} {t : Token} (ht : ∀ b : Building, b.step t = b.addLeaf kind s)
    (hkept : isKept pre s = true) : Adds pre [t] (.leaf kind s) := by
  intro b _ hpre
  rw [List.foldl_cons, List.foldl_nil, ht, addLeaf,
    condense_of_isKept (by rw [isPre_endText, hpre]; exact hkept)]

end Building

/-! ## Reading back -/

section Reading

variable {pre : Bool} {rest : List Char}

theorem mem_rawNames_of_verbatim {name : String} (h : verbatimNames.contains name = true) :
    name ∈ Token.rawNames := by
  simpa [verbatimNames, Token.rawNames] using h

theorem rawAfter_tagToken {close : List Char} {name : String} {as : Attributes}
    (h : verbatimNames.contains name = false ∨ close ≠ ['>']) :
    Token.rawAfter [tagToken close name as] = none := by
  rw [tagToken]
  split
  · rename_i hclose
    exact if_neg (by simpa [Token.rawNames, verbatimNames] using h.resolve_right (by simp [hclose]))
  · rfl

/-- In an element with raw text there is one text at most. -/
theorem raw_content {ns : List Node} (h : legibleIn pre true ns = true) :
    ns = [] ∨ ∃ s, ns = [.leaf .text s] ∧ s ≠ [] ∧ isKept pre s = true ∧ ¬ ['<', '/'] <:+: s := by
  have htext : ∀ n, legible pre true n = true → ∃ s, n = .leaf .text s ∧ s ≠ [] ∧
      isKept pre s = true ∧ ¬ ['<', '/'] <:+: s := by
    intro n hn
    cases n with
    | element name as children => simp [legible] at hn
    | leaf kind s =>
      cases kind <;> simp [legible, legibleLeaf] at hn
      refine ⟨s, rfl, hn.2.1, hn.1, ?_⟩
      intro hinfix
      obtain ⟨t, hstarts, hsuffix⟩ := List.infix_iff_prefix_suffix.mp hinfix
      exact absurd (List.isPrefixOf_iff_prefix.mpr hstarts) (by rw [hn.2.2 t hsuffix]; simp)
  cases ns with
  | nil => exact Or.inl rfl
  | cons n ns =>
    rw [legibleIn, Bool.and_eq_true, Bool.and_eq_true] at h
    obtain ⟨s, rfl, hs⟩ := htext n h.1.1
    cases ns with
    | nil => exact Or.inr ⟨s, rfl, hs⟩
    | cons m ns =>
      -- two texts do not stand side by side
      have hm := h.2
      rw [legibleIn, Bool.and_eq_true, Bool.and_eq_true] at hm
      obtain ⟨t, rfl, -⟩ := htext m hm.1.1
      simp [isText] at h

theorem head?_write {n : Node} (h : n.isText = false) (hl : legible pre false n = true) :
    (write false n).head? = some '<' := by
  cases n with
  | element name as children => rfl
  | leaf kind s =>
    cases kind <;> first | rfl | cases h

theorem exists_leaf_of_isText {n : Node} (h : n.isText = true) : ∃ s, n = .leaf .text s := by
  cases n with
  | element => cases h
  | leaf kind s =>
    cases kind with
    | text => exact ⟨s, rfl⟩
    | comment | instruction | doctype | characterData | declaration => cases h

theorem head?_mapAttributesIn_isText (g : String → Attributes → Attributes) (ns : List Node) :
    (mapAttributesIn g ns).head?.any isText = ns.head?.any isText := by
  cases ns with
  | nil => rfl
  | cons n ns => cases n <;> rfl

/-- What stands behind a text begins with a mark, be it a node or the end of the element. -/
theorem head?_writeIn_append {ns : List Node} (hrest : ∀ c, rest.head? = some c → c = '<')
    (hns : legibleIn pre false ns = true) (hnext : ns.head?.any isText = false) :
    ∀ c, (writeIn false ns ++ rest).head? = some c → c = '<' := by
  intro c hc
  cases ns with
  | nil => exact hrest c hc
  | cons m ns =>
    rw [legibleIn, Bool.and_eq_true, Bool.and_eq_true] at hns
    rw [writeIn, List.append_assoc, List.head?_append,
      head?_write (by simpa using hnext) hns.1.1] at hc
    exact (Option.some.inj hc).symm

/-! ### Nodes of each kind -/

theorem exists_scans_leaf {kind : LeafKind} {s : List Char} (h : legibleLeaf pre false kind s = true)
    (htext : kind ≠ .text) (rest : List Char) :
    ∃ ts, Scans (renderLeaf false kind s) ts rest ∧ Building.Adds pre ts (.leaf kind s) := by
  unfold legibleLeaf at h
  rw [Bool.and_eq_true] at h
  cases kind with
  | text => exact absurd rfl htext
  | comment =>
    have hends : ∀ t, t <:+ s → Token.endsComment t = false := by simpa using h.2
    exact ⟨[.comment s], Token.scans_comment hends, Building.adds_leaf (fun _ => rfl) h.1⟩
  | instruction =>
    have hangle : '>' ∉ s := by simpa using h.2
    exact ⟨[.instruction s], Token.scans_instruction hangle, Building.adds_leaf (fun _ => rfl) h.1⟩
  | doctype | characterData | declaration => simp at h

section Element

variable {name : String} {as : Attributes} {children : List Node}

/-- A void element without content is written as one tag. -/
theorem exists_scans_void (hname : Nameable name.toList) (has : WritableAttributes as)
    (hvoid : voidNames.contains name = true) (rest : List Char) :
    ∃ ts, Scans (write false (.element name as [])) ts rest ∧
      Building.Adds pre ts (.element name (readBack as) []) := by
  have hclose : ClosesTag ['/', '>'] := Or.inr rfl
  have hscans := Token.scans_tagToken hname has hclose rest (rawAfter_tagToken (Or.inr (by decide)))
  rw [String.ofList_toList, Token.tagToken_empty] at hscans
  refine ⟨_, ?_, Building.adds_emptyTag⟩
  rw [write, List.isEmpty_nil, Bool.true_and, if_pos hvoid]
  exact hscans

/-- Any other element is written as its content between two tags. -/
theorem write_element (hvoid : voidNames.contains name = false) :
    write false (.element name as children) =
      ('<' :: (name.toList ++ (attributesText as ++ ['>']))) ++
        (writeIn (verbatimNames.contains name) children ++ '<' :: '/' :: (name.toList ++ ['>'])) := by
  rw [write, hvoid, Bool.and_false, if_neg Bool.false_ne_true]
  simp

/-- The content of an element with raw text is read as it stands. -/
theorem exists_scans_verbatim (has : WritableAttributes as) (hvoid : voidNames.contains name = false)
    (hverbatim : verbatimNames.contains name = true)
    (hchildren : legibleIn (pre || preformattedNames.contains name) true children = true)
    (rest : List Char) :
    ∃ ts, Scans (write false (.element name as children)) ts rest ∧
      Building.Adds pre ts (reread (.element name as children)) := by
  obtain ⟨s, hs, hchild, hbuilds⟩ : ∃ s, ¬ ['<', '/'] <:+: s ∧ writeIn true children = s ∧
      Building.Builds (pre || preformattedNames.contains name) (rawTokens s)
        (mapAttributesIn (fun _ as => readBack as) children) := by
    rcases raw_content hchildren with rfl | ⟨s, rfl, hne, hkept, hs⟩
    · exact ⟨[], by simp, rfl, Building.builds_nil⟩
    · have htokens : rawTokens s = [.text s] ++ [] := if_neg (by simpa using hne)
      have htexts : Texts [.text s] s := ⟨[s], rfl, by simp⟩
      refine ⟨s, hs, List.append_nil s, ?_⟩
      rw [htokens]
      exact Building.builds_text htexts hne (by simpa [isKept] using hkept) rfl Building.builds_nil
  have hmem : String.ofList name.toList ∈ Token.rawNames := by
    rw [String.ofList_toList]
    exact mem_rawNames_of_verbatim hverbatim
  have hraw := Token.scans_raw hmem has hs rest
  rw [String.ofList_toList] at hraw
  rw [write_element hvoid, hverbatim, hchild]
  exact ⟨_, hraw, Building.adds_element hvoid hbuilds⟩

/-- The content of another element is read up to its end tag. -/
theorem exists_scans_content (hname : Nameable name.toList) (has : WritableAttributes as)
    (hvoid : voidNames.contains name = false) (hverbatim : verbatimNames.contains name = false)
    (hchildren : ∃ ts, Scans (writeIn false children) ts
        ('<' :: '/' :: (name.toList ++ ['>']) ++ rest) ∧
      Building.Builds (pre || preformattedNames.contains name) ts
        (mapAttributesIn (fun _ as => readBack as) children)) :
    ∃ ts, Scans (write false (.element name as children)) ts rest ∧
      Building.Adds pre ts (reread (.element name as children)) := by
  obtain ⟨ts, hscans, hbuilds⟩ := hchildren
  have hclose : ClosesTag ['>'] := Or.inl rfl
  have hstart := Token.scans_tagToken hname has hclose
    (writeIn false children ++ '<' :: '/' :: (name.toList ++ ['>']) ++ rest)
    (rawAfter_tagToken (Or.inl (by rw [String.ofList_toList]; exact hverbatim)))
  have hend := Token.scans_endTag hname rest
  rw [String.ofList_toList, Token.tagToken_start] at hstart
  rw [String.ofList_toList] at hend
  rw [write_element hvoid, hverbatim]
  exact ⟨_, hstart.append (hscans.append hend), Building.adds_element hvoid hbuilds⟩

end Element

/-! ### Trees -/

mutual

/-- A node that is no text is read back from how it is written. -/
theorem exists_scans_node (pre : Bool) (rest : List Char) : ∀ n : Node,
    legible pre false n = true → n.isText = false →
      ∃ ts, Scans (write false n) ts rest ∧ Building.Adds pre ts n.reread
  | .leaf kind s => by
    intro h htext
    refine exists_scans_leaf h ?_ rest
    rintro rfl
    cases htext
  | .element name as children => by
    intro h _
    simp only [legible, Bool.and_eq_true, Bool.or_eq_true, decide_eq_true_eq, Bool.not_eq_true'] at h
    obtain ⟨⟨⟨⟨-, hname⟩, has⟩, hempty⟩, hchildren⟩ := h
    cases hvoid : voidNames.contains name with
    | true =>
      obtain rfl : children = [] := List.isEmpty_iff.mp (hempty.resolve_right (by rw [hvoid]; simp))
      exact exists_scans_void hname has hvoid rest
    | false =>
      cases hverbatim : verbatimNames.contains name with
      | true =>
        rw [hverbatim] at hchildren
        exact exists_scans_verbatim has hvoid hverbatim hchildren rest
      | false =>
        rw [hverbatim] at hchildren
        refine exists_scans_content hname has hvoid hverbatim ?_
        exact exists_scans_nodes _ _ (fun c hc => by cases hc; rfl) children hchildren

/-- Nodes side by side are read back from how they are written. -/
theorem exists_scans_nodes (pre : Bool) (rest : List Char)
    (hrest : ∀ c, rest.head? = some c → c = '<') : ∀ ns : List Node,
    legibleIn pre false ns = true →
      ∃ ts, Scans (writeIn false ns) ts rest ∧
        Building.Builds pre ts (mapAttributesIn (fun _ as => readBack as) ns)
  | [] => by
    intro _
    exact ⟨[], Token.scans_nil, Building.builds_nil⟩
  | n :: ns => by
    intro h
    rw [legibleIn, Bool.and_eq_true, Bool.and_eq_true] at h
    obtain ⟨⟨hn, hside⟩, hns⟩ := h
    obtain ⟨ts', hscans', hbuilds'⟩ := exists_scans_nodes pre rest hrest ns hns
    rw [writeIn, mapAttributesIn]
    cases htext : n.isText with
    | false =>
      obtain ⟨ts, hscans, hadds⟩ := exists_scans_node pre (writeIn false ns ++ rest) n hn htext
      exact ⟨ts ++ ts', hscans.append hscans', hadds.cons hbuilds'⟩
    | true =>
      -- the tokens of a text are one text only because something else comes next
      obtain ⟨s, rfl⟩ := exists_leaf_of_isText htext
      have hnext : ns.head?.any isText = false := by simpa [htext] using hside
      have hleaf : isKept pre s = true ∧ s ≠ [] := by
        simp only [legible, legibleLeaf, Bool.and_eq_true] at hn
        exact ⟨hn.1, by simpa using hn.2⟩
      obtain ⟨ts, htexts, hscans⟩ :=
        Token.exists_scans_escapeText (head?_writeIn_append hrest hns hnext) [] (by simp) s
      exact ⟨ts ++ ts', hscans.append hscans', Building.builds_text htexts hleaf.2 hleaf.1
        ((head?_mapAttributesIn_isText _ ns).trans hnext) hbuilds'⟩

end

theorem foldl_add_done (ns : List Node) (done : List Node) :
    ns.foldl Building.add { done := done } = { done := ns.reverse ++ done } := by
  induction ns generalizing done with
  | nil => rfl
  | cons n ns ih =>
    rw [List.foldl_cons]
    refine (ih (n :: done)).trans ?_
    simp

/-- What is read are the nodes that the tokens of the whole text build. -/
theorem read_of_builds {cs : List Char} {ts : List Token} {ns : List Node} (hscans : Scans cs ts [])
    (hbuilds : Building.Builds false ts ns) : Node.read cs = .ok ns := by
  have hend := hbuilds {} rfl rfl (Or.inl rfl)
  rw [Building.endText_eq (b := {}) rfl, foldl_add_done] at hend
  rw [Node.read, Token.read_of_scans hscans]
  simp only [Except.map, ofTokens, Building.finish, hend, Building.closeMany, List.length_nil,
    List.append_nil, List.reverse_reverse]

/-- Written trees are read back. -/
theorem read_writeIn {ns : List Node} (h : legibleIn false false ns = true) :
    Node.read (writeIn false ns) = .ok (mapAttributesIn (fun _ as => readBack as) ns) := by
  obtain ⟨ts, hscans, hbuilds⟩ := exists_scans_nodes false [] (fun c hc => by cases hc) ns h
  exact read_of_builds hscans hbuilds

/-- An element without content is read with its attributes, whatever quotes their values are in. -/
theorem read_assignments {name : List Char} {as : List Assignment} (hname : Nameable name)
    (has : ReadableAll as) (hvoid : voidNames.contains (String.ofList name) = false)
    (hverbatim : verbatimNames.contains (String.ofList name) = false) :
    Node.read (('<' :: (name ++ (assignmentsText as ++ ['>']))) ++ '<' :: '/' :: (name ++ ['>'])) =
      .ok [.element (String.ofList name) (as.foldl Assignment.store []) []] := by
  have hclose : ClosesTag ['>'] := Or.inl rfl
  have hstart := Token.scans_assignments hname has hclose ('<' :: '/' :: (name ++ ['>']) ++ [])
    (rawAfter_tagToken (Or.inl hverbatim))
  rw [Token.tagToken_start] at hstart
  have hbuilds : ∀ as, Building.Builds false ([.startTag (String.ofList name) as] ++
      [.endTag (String.ofList name)]) [.element (String.ofList name) as []] :=
    fun _ => (Building.adds_element hvoid Building.builds_nil).cons Building.builds_nil
  exact read_of_builds (hstart.append (Token.scans_endTag hname [])) (hbuilds _)

end Reading

end Node

end BlockMarkup.Markup
