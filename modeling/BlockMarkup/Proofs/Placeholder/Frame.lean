import BlockMarkup.Proofs.Placeholder.Outcome

/-! # What formatting leaves alone

A frame is a tree without its class attributes. Formatting trees keeps their frames
(`frameIn_formatRoots`), and so does writing the formatted trees and parsing the text, where that
can be parsed (`Parsable.exists_read`). What can disturb other attributes and texts is the step
before: class bindings are rewritten wherever they stand in the markup, in the values of other
attributes too. So the result has the frames of the given markup exactly if the trees that are
formatted have them (`frameIn_read_result`). That is so where class attributes are all that looks
like a binding (`frameIn_read_result_of_writeIn`), and it is not so for a title that quotes one
(`frameIn_read_result_quoted_title`).
-/

namespace BlockMarkup

open Markup (Node Attributes ClassAttribute LeafKind Settled Token)
open Markup.ClassAttribute (internalName)

/-! ## Frames -/

/-- A tree without the class attributes of its elements. -/
inductive Frame where
  | element (name : String) (attributes : String → Option String) (children : List Frame)
  | leaf (kind : LeafKind) (content : List Char)

namespace Markup

/-- The values of attributes, those of class attributes apart. -/
def otherValues (as : Attributes) (key : String) : Option String :=
  if key = "class" ∨ key = "classname" then none else as.lookup key

namespace Node

mutual

/-- The tree without the class attributes of its elements. -/
def frame : Node → Frame
  | .leaf kind s => .leaf kind s
  | .element name as ns => .element name (otherValues as) (frameIn ns)

/-- The trees without the class attributes of their elements. -/
def frameIn : List Node → List Frame
  | [] => []
  | n :: rest => frame n :: frameIn rest

end

mutual

theorem frame_mapAttributes_congr {f g : String → Attributes → Attributes} : ∀ n : Node,
    (∀ r ∈ n.routes, otherValues (f r.here.name r.here.attributes) =
      otherValues (g r.here.name r.here.attributes)) →
        (n.mapAttributes f).frame = (n.mapAttributes g).frame
  | .leaf .. => fun _ => rfl
  | .element name as ns => by
    intro h
    rw [forall_routes_element] at h
    have hself : otherValues (f name as) = otherValues (g name as) := h.1
    rw [mapAttributes, mapAttributes, frame, frame, hself,
      frameIn_mapAttributesIn_congr ns fun r hr => h.2 r hr]

/-- The frames depend on the attributes that are no class attributes only. -/
theorem frameIn_mapAttributesIn_congr {f g : String → Attributes → Attributes} :
    ∀ ns : List Node, (∀ r ∈ routesIn ns, otherValues (f r.here.name r.here.attributes) =
      otherValues (g r.here.name r.here.attributes)) →
        frameIn (mapAttributesIn f ns) = frameIn (mapAttributesIn g ns)
  | [] => fun _ => rfl
  | n :: rest => by
    intro h
    rw [forall_routesIn_cons] at h
    rw [mapAttributesIn, mapAttributesIn, frameIn, frameIn, frame_mapAttributes_congr n h.1,
      frameIn_mapAttributesIn_congr rest h.2]

end

end Node

variable {as : Attributes} {name : String} {a : ClassAttribute} {ns : List Node}

/-- Whatever name replaces the internal one, the other attributes are the same. -/
theorem otherValues_renameKeys {target : String} (h : target = "class" ∨ target = "classname")
    (key : String) : otherValues (renameKeys [internalName] target as) key =
      if key = internalName then none else otherValues as key := by
  have hne : internalName ≠ target := by
    rcases h with rfl | rfl <;> decide
  rw [otherValues, otherValues]
  by_cases hkey : key = "class" ∨ key = "classname"
  · rw [if_pos hkey, if_pos hkey]
    exact (ite_self none).symm
  · rw [if_neg hkey, if_neg hkey]
    by_cases hinternal : key = internalName
    · rw [if_pos hinternal, hinternal, lookup_renameKeys_source List.mem_cons_self hne]
    · rw [if_neg hinternal, lookup_renameKeys_of_ne (by simpa using hinternal)]
      rintro rfl
      exact hkey h

/-- Formatted trees whose text is parsed as it is meant. -/
structure Parsable (a : ClassAttribute) (ns : List Node) : Prop where
  marked : MarksInternal ns
  legible : Node.legibleIn false false ns = true
  settled : ∀ r ∈ Node.routesIn ns, Settled (Text.lower a.name) r.here.attributes
  declared : ∀ r ∈ Node.routesIn ns,
    declaredAttributes r.here.name r.here.attributes = r.here.attributes

instance (a : ClassAttribute) (ns : List Node) : Decidable (Parsable a ns) :=
  decidable_of_iff (MarksInternal ns ∧ Node.legibleIn false false ns = true ∧
    (∀ r ∈ Node.routesIn ns, Settled (Text.lower a.name) r.here.attributes) ∧
    ∀ r ∈ Node.routesIn ns, declaredAttributes r.here.name r.here.attributes = r.here.attributes)
    ⟨fun h => ⟨h.1, h.2.1, h.2.2.1, h.2.2.2⟩,
      fun h => ⟨h.marked, h.legible, h.settled, h.declared⟩⟩

theorem lower_name (a : ClassAttribute) :
    Text.lower a.name = "class" ∨ Text.lower a.name = "classname" := by
  cases a with
  | plain => exact Or.inl (by decide +kernel)
  | camel => exact Or.inr (by decide +kernel)

theorem otherValues_readBack (hsettled : Settled (Text.lower a.name) as)
    (hdeclared : declaredAttributes name as = as) :
    otherValues (Token.readBack (renameKeys [internalName] a.name (Node.arranged name as))) =
      otherValues (renameKeys [internalName] "class" as) := by
  have harranged : Settled (Text.lower a.name) (Node.arranged name as) := hsettled.arranged
  funext key
  rw [harranged.readBack_renameKeys, otherValues_renameKeys (lower_name a),
    otherValues_renameKeys (Or.inl rfl), otherValues, otherValues,
    lookup_arranged_of_declared hsettled.nodup_keys hdeclared]

theorem otherValues_readBack_held (hsettled : Settled a.heldName as)
    (hdeclared : declaredAttributes name as = as) :
    otherValues (renameKeys [internalName] "class"
      (Token.readBack (renameKeys [internalName] a.heldName (Node.arranged name as)))) =
        otherValues (renameKeys [internalName] "class" as) := by
  funext key
  rw [hsettled.readBack_held, otherValues_renameKeys (Or.inl rfl),
    otherValues_renameKeys (Or.inl rfl)]
  have harranged : otherValues (Node.arranged name as) key = otherValues as key := by
    rw [otherValues, otherValues, lookup_arranged_of_declared hsettled.nodup_keys hdeclared]
  cases a with
  | plain =>
    rw [ClassAttribute.heldName, otherValues_renameKeys (Or.inl rfl), harranged]
    split <;> rfl
  | camel => rw [ClassAttribute.heldName, renameKeys_self, harranged]

/-- The text of parsable trees is parsed as these trees, up to class attributes. -/
theorem Parsable.exists_read (h : Parsable a ns) :
    ∃ parsed, Node.read (Node.writeIn false (Node.spelled a.name ns)) = .ok parsed ∧
      Node.frameIn parsed = Node.frameIn (Node.renameIn [internalName] "class" ns) := by
  refine ⟨_, Node.read_writeIn (Node.legibleIn_spelled (writable_name a) h.legible), ?_⟩
  rw [Node.spelled_eq, Node.mapAttributesIn_mapAttributesIn, Node.renameIn]
  exact Node.frameIn_mapAttributesIn_congr ns fun r hr =>
    otherValues_readBack (h.settled r hr) (h.declared r hr)

end Markup

namespace FormatOptions

variable {o : FormatOptions} {html : List Char} {outcome : FormatOutcome} {ns given : List Node}
  {as : Attributes} {name : String} {depth : Nat}

/-! ## Formatting trees -/

/-- A decision about an element writes its class attribute only. -/
theorem otherValues_applyClasses (d : Decision) :
    Markup.otherValues (Markup.renameKeys [internalName] "class" (o.applyClasses as d)) =
      Markup.otherValues (Markup.renameKeys [internalName] "class" as) := by
  funext key
  rw [Markup.otherValues_renameKeys (Or.inl rfl), Markup.otherValues_renameKeys (Or.inl rfl)]
  by_cases hinternal : key = internalName
  · rw [if_pos hinternal, if_pos hinternal]
  · rw [if_neg hinternal, if_neg hinternal, Markup.otherValues, Markup.otherValues]
    by_cases hkey : key = "class" ∨ key = "classname"
    · rw [if_pos hkey, if_pos hkey]
    · rw [if_neg hkey, if_neg hkey, applyClasses]
      cases d.classes with
      | none => rfl
      | some cs =>
        refine Markup.lookup_setAttribute_of_ne fun hslot => ?_
        have hclass : (o.classSlot as).1 = internalName ∨ (o.classSlot as).1 = "class" := by
          rw [classSlot]
          split
          · exact Or.inl rfl
          · split
            · exact Or.inr rfl
            · exact Or.inr rfl
            · exact Or.inl rfl
        rcases hclass with h | h
        · exact hinternal (hslot.trans h)
        · exact hkey (Or.inl (hslot.trans h))

mutual

theorem frame_formatInner (depth : Nat) : ∀ n : Node,
    ((o.formatInner depth n).1.mapAttributes
      fun _ as => Markup.renameKeys [internalName] "class" as).frame =
        (n.mapAttributes fun _ as => Markup.renameKeys [internalName] "class" as).frame
  | .leaf .. => rfl
  | .element name as ns => by
    have hcontent :
        Node.frameIn (Node.renameIn [internalName] "class" (o.contentAt depth as ns).1) =
          Node.frameIn (Node.renameIn [internalName] "class" ns) := by
      rw [contentAt_eq]
      split
      · exact frameIn_formatContent (depth + 1) ns
      · rfl
    rw [formatInner_element, Node.mapAttributes, Node.mapAttributes, Node.frame, Node.frame,
      otherValues_applyClasses]
    exact congrArg _ hcontent

theorem frameIn_formatContent (depth : Nat) : ∀ ns : List Node,
    Node.frameIn (Node.renameIn [internalName] "class" (o.formatContent depth ns).1) =
      Node.frameIn (Node.renameIn [internalName] "class" ns)
  | [] => rfl
  | n :: rest => by
    rw [formatContent_cons, Node.renameIn, Node.renameIn, Node.mapAttributesIn,
      Node.mapAttributesIn, Node.frameIn, Node.frameIn, frame_formatInner depth n]
    exact congrArg _ (frameIn_formatContent depth rest)

end

/-- Formatting trees leaves everything but the class attributes alone. -/
theorem frameIn_formatRoots :
    Node.frameIn (Node.renameIn [internalName] "class" (o.formatRoots ns).1) =
      Node.frameIn (Node.renameIn [internalName] "class" ns) := by
  induction ns with
  | nil => rfl
  | cons root rest ih =>
    rw [formatRoots_cons, Node.renameIn, Node.renameIn, Node.mapAttributesIn, Node.mapAttributesIn,
      Node.frameIn, Node.frameIn]
    refine congrArg₂ List.cons ?_ ih
    cases root with
    | leaf kind s => rfl
    | element name as ns =>
      rw [formatRoot_element, Node.mapAttributes, Node.mapAttributes, Node.frame, Node.frame,
        otherValues_applyClasses]
      exact congrArg _ (frameIn_formatContent 1 ns)

/-! ## Formatting markup -/

/-- The result of formatting is parsed as the trees that are formatted, up to class attributes. -/
theorem exists_read_result (hread : (o.outcomeOf html).changeCount ≠ 0 →
      Markup.Parsable o.classAttribute (o.formatRoots (o.treesOf html)).1)
    (hchanges : (o.outcomeOf html).changeCount ≠ 0) :
    ∃ parsed, Node.read ((o.outcomeOf html).result html) = .ok parsed ∧
      Node.frameIn parsed =
        Node.frameIn (Node.renameIn [internalName] "class" (o.treesOf html)) := by
  have hformatted := hread hchanges
  obtain ⟨parsed, hparsed, hframe⟩ := hformatted.exists_read
  rw [(result_outcomeOf hchanges).2, renderNodes_replaced hformatted.marked]
  exact ⟨parsed, hparsed, hframe.trans frameIn_formatRoots⟩

/-- In the text of trees that carries no other class bindings, formatting touches nothing but the
class attributes. -/
theorem frameIn_read_result_of_writeIn (h : Markup.Rereadable o.classAttribute ns)
    (hparsable : Markup.Parsable o.classAttribute ns)
    (hhtml : html = Node.writeIn false (Node.spelled o.classAttribute.name ns))
    (hread : (o.outcomeOf html).changeCount ≠ 0 →
      Markup.Parsable o.classAttribute (o.formatRoots (o.treesOf html)).1) :
    ∃ given parsed, Node.read html = .ok given ∧
      Node.read ((o.outcomeOf html).result html) = .ok parsed ∧
      Node.frameIn parsed = Node.frameIn given := by
  obtain ⟨given, hgiven, hframe⟩ := hparsable.exists_read
  rw [← hhtml] at hgiven
  by_cases hchanges : (o.outcomeOf html).changeCount = 0
  · exact ⟨given, given, hgiven, by rw [result_of_changeCount_eq_zero hchanges, hgiven], rfl⟩
  · have htrees : Node.frameIn (Node.renameIn [internalName] "class" (o.treesOf html)) =
        Node.frameIn (Node.renameIn [internalName] "class" ns) := by
      rw [hhtml, treesOf_writeIn h, Node.spelled_eq, Node.renameIn,
        Node.mapAttributesIn_mapAttributesIn, Node.mapAttributesIn_mapAttributesIn, Node.renameIn]
      exact Node.frameIn_mapAttributesIn_congr ns fun r hr =>
        Markup.otherValues_readBack_held (h.settled r hr) (hparsable.declared r hr)
    obtain ⟨parsed, hparsed, hsame⟩ := exists_read_result hread hchanges
    exact ⟨given, parsed, hgiven, hparsed, hsame.trans (htrees.trans hframe.symm)⟩

/-- The result of formatting is parsed as the given markup, up to class attributes, exactly if
nothing changes or the trees that are formatted are those of the given markup: what is disturbed is
disturbed when class bindings are rewritten in the text, and never when the trees are formatted. -/
theorem frameIn_read_result (h : o.format html = .ok outcome) (hgiven : Node.read html = .ok given)
    (hread : outcome.changeCount ≠ 0 →
      Markup.Parsable o.classAttribute (o.formatRoots (o.treesOf html)).1) :
    ∃ parsed, Node.read (outcome.result html) = .ok parsed ∧
      (Node.frameIn parsed = Node.frameIn given ↔ outcome.changeCount = 0 ∨
        Node.frameIn (Node.renameIn [internalName] "class" (o.treesOf html)) =
          Node.frameIn given) := by
  obtain rfl := eq_outcomeOf h
  by_cases hchanges : (o.outcomeOf html).changeCount = 0
  · rw [result_of_changeCount_eq_zero hchanges]
    exact ⟨given, hgiven, iff_of_true rfl (Or.inl hchanges)⟩
  · obtain ⟨parsed, hparsed, hframe⟩ := exists_read_result hread hchanges
    refine ⟨parsed, hparsed, ?_⟩
    rw [hframe]
    exact ⟨Or.inr, fun hor => hor.resolve_left hchanges⟩

/-- A page without disturbing texts: its placeholders are all that is new. -/
theorem frameIn_read_result_plain_page :
    ∃ parsed, Node.read "<p class=\"block-box\"><b class=\"x\"></b></p>".toList = .ok parsed ∧
      Node.frameIn parsed = Node.frameIn [.element "p" [] [.element "b" [("class", "x")] []]] := by
  have hreadable : (Markup.readableClasses .plain "<p><b class=\"x\"></b></p>".toList).markup =
      "<p><b class=\"x\"></b></p>".toList := by decide +kernel
  have htokens : Token.read (wrapped "<p><b class=\"x\"></b></p>".toList) =
      .ok [.startTag wrapperName [], .startTag "p" [], .startTag "b" [("class", "x")], .endTag "b",
        .endTag "p", .endTag wrapperName] := by decide +kernel
  have htrees : ({} : FormatOptions).treesOf "<p><b class=\"x\"></b></p>".toList =
      [.element "p" [] [.element "b" [("class", "x")] []]] := by
    rw [treesOf]
    dsimp only
    rw [hreadable, Node.read, htokens]
    rfl
  have hresult : (({} : FormatOptions).outcomeOf "<p><b class=\"x\"></b></p>".toList).result
      "<p><b class=\"x\"></b></p>".toList =
        "<p class=\"block-box\"><b class=\"x\"></b></p>".toList := by
    decide +kernel
  have hinput : Token.read "<p><b class=\"x\"></b></p>".toList = .ok [.startTag "p" [],
      .startTag "b" [("class", "x")], .endTag "b", .endTag "p"] := by decide +kernel
  have hgiven : Node.read "<p><b class=\"x\"></b></p>".toList =
      .ok [.element "p" [] [.element "b" [("class", "x")] []]] := by
    rw [Node.read, hinput]
    rfl
  obtain ⟨parsed, hparsed, hframe⟩ := frameIn_read_result (o := {})
    (format_of_isSome (s := "<p><b class=\"x\"></b></p>".toList) (by decide +kernel))
    hgiven fun _ => by decide +kernel
  rw [hresult] at hparsed
  exact ⟨parsed, hparsed, hframe.mpr (Or.inr (by rw [htrees]; rfl))⟩

/-! ## A value that looks like a binding -/

theorem treesOf_quoted_title : ({} : FormatOptions).treesOf "<p title=\"class='a'\">x</p>".toList =
    [.element "p" [("title", "class="), ("a\"\"", "")] [.leaf .text ['x']]] := by
  have hreadable : (Markup.readableClasses .plain "<p title=\"class='a'\">x</p>".toList).markup =
      "<p title=\"class=\"a\"\">x</p>".toList := by decide +kernel
  have htokens : Token.read (wrapped "<p title=\"class=\"a\"\">x</p>".toList) =
      .ok [.startTag wrapperName [], .startTag "p" [("title", "class="), ("a\"\"", "")],
        .text ['x'], .endTag "p", .endTag wrapperName] := by decide +kernel
  rw [treesOf]
  dsimp only
  rw [hreadable, Node.read, htokens]
  rfl

theorem result_quoted_title :
    (({} : FormatOptions).outcomeOf "<p title=\"class='a'\">x</p>".toList).result
        "<p title=\"class='a'\">x</p>".toList =
      "<p a\"\"=\"\" class=\"block-box\" title=\"class=\">x</p>".toList := by
  have hroots : ({} : FormatOptions).formatRoots
      [.element "p" [("title", "class="), ("a\"\"", "")] [.leaf .text ['x']]] =
        ([.element "p" [("title", "class="), ("a\"\"", ""), ("class", "block-box")]
          [.leaf .text ['x']]], 1) := rfl
  have harranged : Node.arranged "p" [("title", "class="), ("a\"\"", ""), ("class", "block-box")] =
      [("a\"\"", ""), ("class", "block-box"), ("title", "class=")] := by
    rw [Node.arranged, Markup.declaredAttributes, if_pos (by decide)]
    simp [List.mergeSort, List.MergeSort.Internal.splitInTwo, Markup.attributeLE]
  have hchanges : (({} : FormatOptions).outcomeOf
      "<p title=\"class='a'\">x</p>".toList).changeCount ≠ 0 := by
    decide +kernel
  rw [(result_outcomeOf hchanges).2, treesOf_quoted_title, hroots, Node.renderNodes_eq,
    Node.mapAttributesIn, Node.mapAttributes, harranged]
  decide +kernel

/-- An attribute whose value looks like a class binding is torn apart. -/
theorem frameIn_read_result_quoted_title :
    let html := "<p title=\"class='a'\">x</p>".toList
    ∃ outcome given parsed, ({} : FormatOptions).format html = .ok outcome ∧
      Markup.hasTemplateSyntax html = false ∧ Node.read html = .ok given ∧
      Node.read (outcome.result html) = .ok parsed ∧ Node.frameIn parsed ≠ Node.frameIn given := by
  intro html
  have hgiven : Token.read html = .ok [.startTag "p" [("title", "class='a'")], .text ['x'],
      .endTag "p"] := by decide +kernel
  have hparsed : Token.read ((({} : FormatOptions).outcomeOf html).result html) =
      .ok [.startTag "p" [("a\"\"", ""), ("class", "block-box"), ("title", "class=")], .text ['x'],
        .endTag "p"] := by
    rw [result_quoted_title]
    decide +kernel
  refine ⟨_, [.element "p" [("title", "class='a'")] [.leaf .text ['x']]],
    [.element "p" [("a\"\"", ""), ("class", "block-box"), ("title", "class=")] [.leaf .text ['x']]],
    format_of_isSome (by decide +kernel), by decide +kernel, ?_, ?_, ?_⟩
  · rw [Node.read, hgiven]
    rfl
  · rw [Node.read, hparsed]
    rfl
  · intro h
    have hvalues := congrFun (Frame.element.inj (List.cons.inj h).1).2.1 "title"
    revert hvalues
    decide

end FormatOptions

end BlockMarkup
