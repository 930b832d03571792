import BlockMarkup.Proofs.Markup.Balance
import BlockMarkup.Proofs.Markup.QuotedValues
import BlockMarkup.Proofs.Markup.TagScan
import BlockMarkup.Proofs.Markup.Written

/-! # Serialized trees

The tags of a tree that is written as it is are balanced, provided that no value is read beyond its end
(`unbalancedTags_serialize`): stripping blanks values and keeps all else
(`stripForRootScan_serializeIn`), so the scan finds the two tags of every element around those of its
content (`tagMarks_serializeIn`). A value with a single backslash at its end hides the tag after it
(`unbalancedTags_serialize_open`).
-/

namespace BlockMarkup.Markup

open BlockMarkup.Regex (Gives adds_nil)

/-- An attribute behind a blank, its value as it is. -/
def rawAttribute (a : String × String) : List Char :=
  ' ' :: (a.1.toList ++ signedValue a.2.toList)

/-- The attribute as it is scanned. -/
def blankedAttribute (a : String × String) : String × String :=
  (a.1, String.ofList (blanked a.2.toList))

/-- The tags of a text are those that are found in it when its values are blanked. -/
theorem tagMarks_eq {s t : List Char} {ts : List TagMark} (hs : Tagged s) (ht : Tagged t)
    (hblanks : Blanks s t) (hgives : Gives Pattern.tag TagMark.ofMatch t ts) : tagMarks s = ts := by
  rw [tagMarks, stripForRootScan_eq hs ht hblanks.replaceAll, allMatches_tag hgives]

namespace Node

/-! ## Trees -/

mutual

/-- The text of a node, nothing escaped. -/
def serialize : Node → List Char
  | .leaf kind s => renderLeaf true kind s
  | .element name attributes children =>
    '<' :: (name.toList ++ (attributes.flatMap rawAttribute ++ '>' ::
      (serializeIn children ++ '<' :: '/' :: (name.toList ++ ['>']))))

/-- The text of the content of an element, nothing escaped. -/
def serializeIn : List Node → List Char
  | [] => []
  | n :: rest => serialize n ++ serializeIn rest

end

/-- Whether the name consists of small letters and is of an element that has content and is not
removed. -/
def isProperName (name : String) : Bool :=
  !name.toList.isEmpty && name.toList.all Char.isLower && !TagMark.voidNames.contains name &&
    !removedNames.contains name

/-- Whether the name consists of small letters and hyphens and the value has neither double quotes nor
angles and passes `ok`. -/
def isProperAttribute (ok : List Char → Bool) (a : String × String) : Bool :=
  a.1.toList.all (fun c => c.isLower || c == '-') &&
    a.2.toList.all (fun c => c != '"' && c != '<' && c != '>') && ok a.2.toList

mutual

/-- Whether names, values and texts are such that nothing has to be escaped, and values pass `ok`. -/
def isProper (ok : List Char → Bool) : Node → Bool
  | .leaf kind s => kind == .text && s.all fun c => c != '<' && c != '>' && c != '='
  | .element name attributes children =>
    isProperName name && attributes.all (isProperAttribute ok) && isProperIn ok children

/-- The same for all nodes of a list. -/
def isProperIn (ok : List Char → Bool) : List Node → Bool
  | [] => true
  | n :: rest => isProper ok n && isProperIn ok rest

end

mutual

/-- The tags of a node. -/
def marks : Node → List TagMark
  | .leaf .. => []
  | .element name _ children => ⟨name, false, false⟩ :: (marksIn children ++ [⟨name, true, false⟩])

/-- The tags of the content of an element. -/
def marksIn : List Node → List TagMark
  | [] => []
  | n :: rest => marks n ++ marksIn rest

end

/-- Trees side by side: the content of the first one and the trees after it. -/
theorem forest_induction {P : List Node → Prop} (nil : P [])
    (leaf : ∀ kind s rest, P rest → P (.leaf kind s :: rest))
    (element : ∀ name attributes children rest, P children → P rest →
      P (.element name attributes children :: rest)) : ∀ ns, P ns
  | [] => nil
  | .leaf kind s :: rest => leaf kind s rest (forest_induction nil leaf element rest)
  | .element name attributes children :: rest =>
    element name attributes children rest (forest_induction nil leaf element children)
      (forest_induction nil leaf element rest)

variable {ok : List Char → Bool} {ns : List Node}

theorem serializeIn_singleton (n : Node) : serializeIn [n] = serialize n := List.append_nil _

theorem serializeIn_element (name : String) (attributes : Attributes) (children rest : List Node) :
    serializeIn (.element name attributes children :: rest) =
      tagText false name.toList (attributes.flatMap rawAttribute) ++
        (serializeIn children ++ (tagText true name.toList [] ++ serializeIn rest)) := by
  simp [serializeIn, serialize, tagText]

theorem marksIn_element (name : String) (attributes : Attributes) (children rest : List Node) :
    marksIn (.element name attributes children :: rest) =
      ⟨name, false, false⟩ :: (marksIn children ++ ⟨name, true, false⟩ :: marksIn rest) := by
  simp [marksIn, marks]

theorem isProperIn_leaf {kind : LeafKind} {s : List Char} :
    isProperIn ok (.leaf kind s :: ns) = true ↔
      kind = .text ∧ (∀ c ∈ s, c ≠ '<' ∧ c ≠ '>' ∧ c ≠ '=') ∧ isProperIn ok ns = true := by
  simp only [isProperIn, isProper, Bool.and_eq_true, beq_iff_eq, List.all_eq_true, bne_iff_ne, ne_eq,
    and_assoc]

theorem isProperIn_element {name : String} {attributes : Attributes} {children : List Node} :
    isProperIn ok (.element name attributes children :: ns) = true ↔
      isProperName name = true ∧ (∀ a ∈ attributes, isProperAttribute ok a = true) ∧
        isProperIn ok children = true ∧ isProperIn ok ns = true := by
  simp only [isProperIn, isProper, Bool.and_eq_true, List.all_eq_true, and_assoc]

theorem isProperName_iff {name : String} : isProperName name = true ↔
    LowerName name.toList ∧ name ∉ TagMark.voidNames ∧ name ∉ removedNames := by
  simp only [isProperName, Bool.and_eq_true, Bool.not_eq_true', List.isEmpty_eq_false_iff,
    List.all_eq_true, List.contains_eq_mem, decide_eq_false_iff_not]
  constructor
  · rintro ⟨⟨⟨hne, hlower⟩, hvoid⟩, hremoved⟩
    exact ⟨⟨hne, hlower⟩, hvoid, hremoved⟩
  · rintro ⟨⟨hne, hlower⟩, hvoid, hremoved⟩
    exact ⟨⟨⟨hne, hlower⟩, hvoid⟩, hremoved⟩

theorem isProperAttribute_iff {a : String × String} : isProperAttribute ok a = true ↔
    (∀ c ∈ a.1.toList, c.isLower = true ∨ c = '-') ∧
      (∀ c ∈ a.2.toList, c ≠ '"' ∧ c ≠ '<' ∧ c ≠ '>') ∧ ok a.2.toList = true := by
  simp only [isProperAttribute, Bool.and_eq_true, List.all_eq_true, Bool.or_eq_true, beq_iff_eq,
    bne_iff_ne, ne_eq, and_assoc]

/-! ## Attributes -/

section Attributes

variable {a : String × String} {as : Attributes}

theorem not_mem_key {c : Char} (h : isProperAttribute ok a = true)
    (hc : (c.isLower || c == '-') = false) : c ∉ a.1.toList := by
  intro hmem
  rcases (isProperAttribute_iff.mp h).1 c hmem with hlower | rfl
  · rw [hlower] at hc
    cases hc
  · cases hc

theorem angles_not_mem_rawAttribute (h : isProperAttribute ok a = true) :
    '<' ∉ rawAttribute a ∧ '>' ∉ rawAttribute a := by
  have hvalue := (isProperAttribute_iff.mp h).2.1
  have hleft : '<' ∉ a.2.toList := fun hmem => (hvalue _ hmem).2.1 rfl
  have hright : '>' ∉ a.2.toList := fun hmem => (hvalue _ hmem).2.2 rfl
  simp [rawAttribute, signedValue, hleft, hright, not_mem_key h (c := '<') rfl,
    not_mem_key h (c := '>') rfl]

theorem getLast?_rawAttributes {c : Char} (hc : (as.flatMap rawAttribute).getLast? = some c) :
    c = '"' := by
  induction as with
  | nil => cases hc
  | cons a as ih =>
    rw [List.flatMap_cons, List.getLast?_append, Option.or_eq_some_iff] at hc
    rcases hc with hc | ⟨-, hc⟩
    · exact ih hc
    · have hquote : rawAttribute a = (' ' :: (a.1.toList ++ '=' :: '"' :: a.2.toList)) ++ ['"'] := by
        simp [rawAttribute, signedValue]
      rw [hquote, List.getLast?_concat] at hc
      exact (Option.some.inj hc).symm

theorem tagBody_attributes (h : ∀ a ∈ as, isProperAttribute ok a = true) :
    TagBody (as.flatMap rawAttribute) := by
  refine ⟨fun c hc => ?_, ⟨?_, ?_⟩, fun c hc => ?_⟩
  · cases as with
    | nil => cases hc
    | cons a as =>
      cases hc
      rfl
  · rw [List.mem_flatMap]
    rintro ⟨a, ha, hmem⟩
    exact (angles_not_mem_rawAttribute (h a ha)).1 hmem
  · rw [List.mem_flatMap]
    rintro ⟨a, ha, hmem⟩
    exact (angles_not_mem_rawAttribute (h a ha)).2 hmem
  · rw [getLast?_rawAttributes hc]
    decide

theorem blanks_attribute (h : isProperAttribute staysInside a = true) :
    Blanks (rawAttribute a) (rawAttribute (blankedAttribute a)) := by
  obtain ⟨-, hvalue, hstays⟩ := isProperAttribute_iff.mp h
  have hkey : '=' ∉ ' ' :: a.1.toList := by
    simp [not_mem_key h (c := '=') rfl]
  have hboth :=
    (blanks_self hkey).append (blanks_value (fun hmem => (hvalue _ hmem).1 rfl) hstays)
  simpa [rawAttribute, blankedAttribute] using hboth

theorem blanks_attributes (h : ∀ a ∈ as, isProperAttribute staysInside a = true) :
    Blanks (as.flatMap rawAttribute) ((as.map blankedAttribute).flatMap rawAttribute) := by
  induction as with
  | nil => exact adds_nil
  | cons a as ih =>
    rw [List.forall_mem_cons] at h
    rw [List.map_cons, List.flatMap_cons, List.flatMap_cons]
    exact (blanks_attribute h.1).append (ih h.2)

theorem isProperAttribute_blanked (h : isProperAttribute ok a = true) :
    isProperAttribute (fun _ => true) (blankedAttribute a) = true := by
  obtain ⟨hkey, hvalue, -⟩ := isProperAttribute_iff.mp h
  refine isProperAttribute_iff.mpr ⟨hkey, fun c hc => ?_, rfl⟩
  rw [blankedAttribute, String.toList_ofList, blanked] at hc
  split at hc
  · cases hc
  · exact hvalue c hc

end Attributes

/-! ## Stripping -/

/-- The trees as they are scanned. -/
def blankIn (ns : List Node) : List Node := mapAttributesIn (fun _ as => as.map blankedAttribute) ns

theorem blankIn_element (name : String) (attributes : Attributes) (children rest : List Node) :
    blankIn (.element name attributes children :: rest) =
      .element name (attributes.map blankedAttribute) (blankIn children) :: blankIn rest :=
  rfl

theorem tagged_serializeIn (h : isProperIn ok ns = true) : Tagged (serializeIn ns) := by
  induction ns using forest_induction with
  | nil => exact tagged_nil
  | leaf kind s rest ih =>
    obtain ⟨rfl, hs, hrest⟩ := isProperIn_leaf.mp h
    exact (tagged_of_not_mem fun hmem => (hs _ hmem).1 rfl).append (ih hrest)
  | element name attributes children rest ihchildren ihrest =>
    obtain ⟨hname, hattributes, hchildren, hrest⟩ := isProperIn_element.mp h
    obtain ⟨hlower, -, hremoved⟩ := isProperName_iff.mp hname
    rw [← String.ofList_toList (s := name)] at hremoved
    rw [serializeIn_element]
    exact (tagged_tagText false hlower hremoved (tagBody_attributes hattributes)).append
      ((ihchildren hchildren).append
        ((tagged_tagText true hlower hremoved tagBody_nil).append (ihrest hrest)))

theorem blanks_tagText (closing : Bool) {name body body' : List Char} (hname : LowerName name)
    (hbody : Blanks body body') :
    Blanks (tagText closing name body) (tagText closing name body') := by
  have hsign : '=' ∉ '<' :: ((if closing then ['/'] else []) ++ name) := by
    cases closing <;> simp [hname.not_mem (c := '=') rfl]
  have hend : Blanks ['>'] ['>'] := blanks_self (by decide)
  have hwhole := (blanks_self hsign).append (hbody.append hend)
  simpa [tagText] using hwhole

theorem blanks_serializeIn (h : isProperIn staysInside ns = true) :
    Blanks (serializeIn ns) (serializeIn (blankIn ns)) := by
  induction ns using forest_induction with
  | nil => exact adds_nil
  | leaf kind s rest ih =>
    obtain ⟨rfl, hs, hrest⟩ := isProperIn_leaf.mp h
    have htext : '=' ∉ s := fun hmem => (hs _ hmem).2.2 rfl
    exact (blanks_self htext).append (ih hrest)
  | element name attributes children rest ihchildren ihrest =>
    obtain ⟨hname, hattributes, hchildren, hrest⟩ := isProperIn_element.mp h
    obtain ⟨hlower, -, -⟩ := isProperName_iff.mp hname
    rw [blankIn_element, serializeIn_element, serializeIn_element]
    exact (blanks_tagText false hlower (blanks_attributes hattributes)).append
      ((ihchildren hchildren).append
        ((blanks_tagText true hlower adds_nil).append (ihrest hrest)))

theorem isProperIn_blankIn (h : isProperIn ok ns = true) :
    isProperIn (fun _ => true) (blankIn ns) = true := by
  induction ns using forest_induction with
  | nil => rfl
  | leaf kind s rest ih =>
    obtain ⟨hkind, hs, hrest⟩ := isProperIn_leaf.mp h
    exact isProperIn_leaf.mpr ⟨hkind, hs, ih hrest⟩
  | element name attributes children rest ihchildren ihrest =>
    obtain ⟨hname, hattributes, hchildren, hrest⟩ := isProperIn_element.mp h
    refine isProperIn_element.mpr ⟨hname, fun a ha => ?_, ihchildren hchildren, ihrest hrest⟩
    obtain ⟨b, hb, rfl⟩ := List.mem_map.mp ha
    exact isProperAttribute_blanked (hattributes b hb)

/-- Stripping blanks the values of the trees and keeps all else. -/
theorem stripForRootScan_serializeIn (h : isProperIn staysInside ns = true) :
    stripForRootScan (serializeIn ns) = serializeIn (blankIn ns) :=
  stripForRootScan_eq (tagged_serializeIn h) (tagged_serializeIn (isProperIn_blankIn h))
    (blanks_serializeIn h).replaceAll

/-! ## Scanning -/

theorem gives_serializeIn (h : isProperIn ok ns = true) :
    Gives Pattern.tag TagMark.ofMatch (serializeIn ns) (marksIn ns) := by
  induction ns using forest_induction with
  | nil => exact adds_nil
  | leaf kind s rest ih =>
    obtain ⟨rfl, hs, hrest⟩ := isProperIn_leaf.mp h
    exact (gives_text fun hmem => (hs _ hmem).1 rfl).append (ih hrest)
  | element name attributes children rest ihchildren ihrest =>
    obtain ⟨hname, hattributes, hchildren, hrest⟩ := isProperIn_element.mp h
    obtain ⟨hlower, -, -⟩ := isProperName_iff.mp hname
    have hopening := gives_tag false hlower (tagBody_attributes hattributes)
    have hclosing := gives_tag true hlower tagBody_nil
    rw [String.ofList_toList] at hopening hclosing
    rw [serializeIn_element, marksIn_element]
    exact hopening.append ((ihchildren hchildren).append (hclosing.append (ihrest hrest)))

theorem marksIn_blankIn : marksIn (blankIn ns) = marksIn ns := by
  induction ns using forest_induction with
  | nil => rfl
  | leaf kind s rest ih => exact ih
  | element name attributes children rest ihchildren ihrest =>
    rw [blankIn_element, marksIn_element, marksIn_element, ihchildren, ihrest]

/-- The scan finds the tags of the trees. -/
theorem tagMarks_serializeIn (h : isProperIn staysInside ns = true) :
    tagMarks (serializeIn ns) = marksIn ns := by
  rw [← marksIn_blankIn]
  exact tagMarks_eq (tagged_serializeIn h) (tagged_serializeIn (isProperIn_blankIn h))
    (blanks_serializeIn h) (gives_serializeIn (isProperIn_blankIn h))

theorem nested_marksIn (h : isProperIn ok ns = true) : Nested (marksIn ns) := by
  induction ns using forest_induction with
  | nil => exact .nil
  | leaf kind s rest ih => exact ih (isProperIn_leaf.mp h).2.2
  | element name attributes children rest ihchildren ihrest =>
    obtain ⟨hname, -, hchildren, hrest⟩ := isProperIn_element.mp h
    have hopens : TagMark.opens ⟨name, false, false⟩ = true := by
      simpa [TagMark.opens] using (isProperName_iff.mp hname).2.1
    rw [marksIn_element]
    exact .element ⟨hopens, rfl, rfl⟩ (ihchildren hchildren) (ihrest hrest)

/-! ## Balance -/

/-- The tags of a tree are balanced if no value in it is read beyond its end. -/
theorem unbalancedTags_serialize {n : Node} (h : n.isProper staysInside = true) :
    unbalancedTags n.serialize = none := by
  have hproper : isProperIn staysInside [n] = true := by
    rw [isProperIn, h]
    rfl
  rw [← serializeIn_singleton, unbalancedTags_eq_none, tagMarks_serializeIn hproper,
    ← List.append_nil (marksIn [n]), (nested_marksIn hproper).balanced_append]
  exact balanced_nil.mpr rfl

/-- Values with signs, single quotes, a pair of backslashes, and a backslash before a line feed. -/
theorem unbalancedTags_serialize_section :
    let n : Node := .element "section" [("class", "a='b c"), ("data-x", "\\\\")]
      [.leaf .text "it's \"so\"".toList, .element "p" [("", "\\\n"), ("title", "x = ")] []]
    n.isProper staysInside = true ∧ unbalancedTags n.serialize = none := by
  intro n
  have hproper : n.isProper staysInside = true := by decide +kernel
  exact ⟨hproper, unbalancedTags_serialize hproper⟩

/-- Whatever a value with a single backslash at its end holds, the tag after it is not found. -/
theorem unbalancedTags_serialize_open {v : String}
    (hv : ∀ c ∈ v.toList, c ≠ '"' ∧ c ≠ '<' ∧ c ≠ '>') (hopen : unread v.toList = ['\\']) :
    unbalancedTags (serialize (.element "p" [("a", v)] [.element "b" [("c", "d")] []])) =
      some ⟨[], ["b"]⟩ := by
  let n : Node := .element "p" [("a", v)] [.element "b" [("c", "d")] []]
  let scanned : List Char := tagText false ['p'] [' ', 'a', '=', '"', '"', 'd', '"'] ++
    (tagText true ['b'] [] ++ tagText true ['p'] [])
  have hname : LowerName ['p'] := ⟨by decide, List.forall_mem_singleton.mpr rfl⟩
  have hother : LowerName ['b'] := ⟨by decide, List.forall_mem_singleton.mpr rfl⟩
  have hbody : TagBody [' ', 'a', '=', '"', '"', 'd', '"'] :=
    ⟨fun c hc => by cases hc; rfl, by decide, fun c hc => by cases hc; decide⟩
  have hproper : isProperIn (fun _ => true) [n] = true := by
    refine isProperIn_element.mpr ⟨by decide, fun a ha => ?_, by decide +kernel, rfl⟩
    rw [List.mem_singleton] at ha
    rw [ha]
    exact isProperAttribute_iff.mpr ⟨by simp, hv, rfl⟩
  have hscanned : Tagged scanned :=
    (tagged_tagText false hname (by decide) hbody).append
      ((tagged_tagText true hother (by decide) tagBody_nil).append
        (tagged_tagText true hname (by decide) tagBody_nil))
  have hblanks : Blanks (serializeIn [n]) scanned := by
    have hfront : Blanks ['<', 'p', ' ', 'a'] ['<', 'p', ' ', 'a'] := blanks_self (by decide)
    have hend : Blanks ('d' :: '"' :: '>' :: (tagText true ['b'] [] ++ tagText true ['p'] []))
        ('d' :: '"' :: '>' :: (tagText true ['b'] [] ++ tagText true ['p'] [])) :=
      blanks_self (by decide)
    -- the value goes on to the first quote in the tag after it
    have hvalue := blanks_openValue (w := ['>', '<', 'b', ' ', 'c', '=']) hopen
      (fun hmem => (hv _ hmem).1 rfl) (by decide) (by decide)
    have hwhole := hfront.append (hvalue.append hend)
    simpa [n, scanned, serializeIn, serialize, rawAttribute, signedValue, tagText] using hwhole
  have hgives : Gives Pattern.tag TagMark.ofMatch scanned
      [⟨"p", false, false⟩, ⟨"b", true, false⟩, ⟨"p", true, false⟩] :=
    (gives_tag false hname hbody).append
      ((gives_tag true hother tagBody_nil).append (gives_tag true hname tagBody_nil))
  have hmarks := tagMarks_eq (tagged_serializeIn hproper) hscanned hblanks hgives
  show unbalancedTags (serialize n) = _
  rw [← serializeIn_singleton, unbalancedTags, hmarks]
  decide

/-- A value that consists of a backslash goes on in the tag after it, whose end tag is then reported. -/
theorem unbalancedTags_serialize_backslash :
    let n : Node := .element "p" [("a", "\\")] [.element "b" [("c", "d")] []]
    n.isProper (fun _ => true) = true ∧ unbalancedTags n.serialize = some ⟨[], ["b"]⟩ := by
  decide +kernel

end Node

end BlockMarkup.Markup
