import BlockMarkup.Proofs.Markup.ReadBack
import BlockMarkup.Proofs.Placeholder.Again

/-! # Formatted trees as they are spelled

Formatted trees are written with the name of the class attribute that was asked for
(`Node.spelled`). When the text is formatted again, class bindings are looked for in the text, not in
the trees. Where the text has such bindings at its class attributes only (`Undisturbed`), they are
read as they are meant (`Rereadable.readableClasses_spelled`).
-/

namespace BlockMarkup.Markup

open ClassAttribute (internalName)

namespace Node

mutual

theorem mapAttributes_mapAttributes {f g : String → Attributes → Attributes} : ∀ n : Node,
    (n.mapAttributes f).mapAttributes g = n.mapAttributes fun name as => g name (f name as)
  | .leaf .. => rfl
  | .element name as ns => by
    rw [mapAttributes, mapAttributes, mapAttributes, mapAttributesIn_mapAttributesIn]

theorem mapAttributesIn_mapAttributesIn {f g : String → Attributes → Attributes} :
    ∀ ns : List Node, mapAttributesIn g (mapAttributesIn f ns) =
      mapAttributesIn (fun name as => g name (f name as)) ns
  | [] => rfl
  | n :: rest => by
    rw [mapAttributesIn, mapAttributesIn, mapAttributesIn, mapAttributes_mapAttributes,
      mapAttributesIn_mapAttributesIn]

end

mutual

theorem mapAttributes_congr {f g : String → Attributes → Attributes} : ∀ n : Node,
    (∀ r ∈ n.routes, f r.here.name r.here.attributes = g r.here.name r.here.attributes) →
      n.mapAttributes f = n.mapAttributes g
  | .leaf .. => fun _ => rfl
  | .element name as ns => by
    intro h
    rw [forall_routes_element] at h
    have hself : f name as = g name as := h.1
    rw [mapAttributes, mapAttributes, hself, mapAttributesIn_congr ns fun r hr => h.2 r hr]

theorem mapAttributesIn_congr {f g : String → Attributes → Attributes} : ∀ ns : List Node,
    (∀ r ∈ routesIn ns, f r.here.name r.here.attributes = g r.here.name r.here.attributes) →
      mapAttributesIn f ns = mapAttributesIn g ns
  | [] => fun _ => rfl
  | n :: rest => by
    intro h
    rw [forall_routesIn_cons] at h
    rw [mapAttributesIn, mapAttributesIn, mapAttributes_congr n h.1, mapAttributesIn_congr rest h.2]

end

theorem isText_mapAttributes {g : String → Attributes → Attributes} {n : Node} :
    (n.mapAttributes g).isText = n.isText := by
  cases n <;> rfl

theorem head?_mapAttributesIn {g : String → Attributes → Attributes} {ns : List Node} :
    (mapAttributesIn g ns).head? = ns.head?.map (mapAttributes g) := by
  cases ns <;> rfl

theorem isEmpty_mapAttributesIn {g : String → Attributes → Attributes} {ns : List Node} :
    (mapAttributesIn g ns).isEmpty = ns.isEmpty := by
  cases ns <;> rfl

mutual

theorem legible_mapAttributes {g : String → Attributes → Attributes}
    (hg : ∀ name as, WritableAttributes as → WritableAttributes (g name as))
    (pre verbatim : Bool) : ∀ n : Node,
    legible pre verbatim n = true → legible pre verbatim (n.mapAttributes g) = true
  | .leaf .. => id
  | .element name as ns => by
    intro h
    simp only [mapAttributes, legible, isEmpty_mapAttributesIn, Bool.and_eq_true, decide_eq_true_eq]
      at h ⊢
    obtain ⟨⟨⟨⟨hverbatim, hname⟩, has⟩, hvoid⟩, hns⟩ := h
    exact ⟨⟨⟨⟨hverbatim, hname⟩, hg name as has⟩, hvoid⟩, legibleIn_mapAttributesIn hg _ _ ns hns⟩

/-- Trees stay legible when names that can be written get other such names. -/
theorem legibleIn_mapAttributesIn {g : String → Attributes → Attributes}
    (hg : ∀ name as, WritableAttributes as → WritableAttributes (g name as))
    (pre verbatim : Bool) : ∀ ns : List Node,
    legibleIn pre verbatim ns = true → legibleIn pre verbatim (mapAttributesIn g ns) = true
  | [] => id
  | n :: rest => by
    intro h
    rw [legibleIn, Bool.and_eq_true, Bool.and_eq_true] at h
    have hside : (mapAttributesIn g rest).head?.any isText = rest.head?.any isText := by
      rw [head?_mapAttributesIn]
      cases rest with
      | nil => rfl
      | cons m rest => exact isText_mapAttributes
    rw [mapAttributesIn, legibleIn, isText_mapAttributes, hside, h.1.2,
      legible_mapAttributes hg pre verbatim n h.1.1,
      legibleIn_mapAttributesIn hg pre verbatim rest h.2]
    rfl

end

theorem writableAttributes_spelled {target name : String} {as : Attributes}
    (htarget : Writable target.toList) (h : WritableAttributes as) :
    WritableAttributes (renameKeys [internalName] target (arranged name as)) := by
  intro a ha
  obtain ⟨b, hb, rfl⟩ := List.mem_map.mp ha
  dsimp only
  split
  · exact htarget
  · have hkey := keys_arranged.mem_iff.mp (List.mem_map_of_mem hb)
    obtain ⟨c, hc, heq⟩ := List.mem_map.mp hkey
    rw [← heq]
    exact h c hc

/-- The trees as they are written, the internal name of the class attribute replaced. -/
def spelled (target : String) (ns : List Node) : List Node :=
  renameIn [internalName] target (mapAttributesIn arranged ns)

theorem spelled_eq (target : String) (ns : List Node) : spelled target ns =
    mapAttributesIn (fun name as => renameKeys [internalName] target (arranged name as)) ns :=
  mapAttributesIn_mapAttributesIn ns

theorem legibleIn_spelled {target : String} {ns : List Node} (htarget : Writable target.toList)
    (h : legibleIn false false ns = true) : legibleIn false false (spelled target ns) = true := by
  rw [spelled_eq]
  exact legibleIn_mapAttributesIn (fun _ _ => writableAttributes_spelled htarget) false false ns h

mutual

theorem exists_route_of_named {key value : String} {g : String → Attributes → Attributes}
    (verbatim : Bool) : ∀ n : Node, .named key value ∈ pieces verbatim (n.mapAttributes g) →
      ∃ r ∈ n.routes, (key, value) ∈ g r.here.name r.here.attributes
  | .leaf kind s => by
    intro h
    simp [mapAttributes, pieces] at h
  | .element name as ns => by
    intro h
    rw [mapAttributes, pieces, List.mem_cons, List.mem_append] at h
    rcases h with h | h | h
    · cases h
    · -- an attribute of the element itself
      refine ⟨_, mem_routes_element.mpr (Or.inl rfl), ?_⟩
      obtain ⟨a, ha, hmem⟩ := List.mem_flatMap.mp h
      have heq : key = a.1 ∧ value = a.2 := by simpa using hmem
      rw [heq.1, heq.2]
      exact ha
    · obtain ⟨r, hr, hmem⟩ : ∃ r ∈ routesIn ns, (key, value) ∈ g r.here.name r.here.attributes := by
        refine exists_route_of_namedIn (verbatimNames.contains name) ns ?_
        split at h
        · simp at h
        · simpa using h
      exact ⟨_, mem_routes_element.mpr (Or.inr ⟨r, hr, rfl⟩), hmem⟩

/-- An attribute among the pieces is one of an element. -/
theorem exists_route_of_namedIn {key value : String} {g : String → Attributes → Attributes}
    (verbatim : Bool) : ∀ ns : List Node,
      .named key value ∈ piecesIn verbatim (mapAttributesIn g ns) →
        ∃ r ∈ routesIn ns, (key, value) ∈ g r.here.name r.here.attributes
  | [] => by
    intro h
    simp [mapAttributesIn, piecesIn] at h
  | n :: rest => by
    intro h
    rw [mapAttributesIn, piecesIn, List.mem_append] at h
    simp only [routesIn, List.mem_append]
    rcases h with h | h
    · obtain ⟨r, hr, hmem⟩ := exists_route_of_named verbatim n h
      exact ⟨r, Or.inl hr, hmem⟩
    · obtain ⟨r, hr, hmem⟩ := exists_route_of_namedIn verbatim rest h
      exact ⟨r, Or.inr hr, hmem⟩

end

end Node

/-! ## Reading the class attributes again -/

/-- The internal name is nowhere in the text of the trees but at the start of attributes. -/
def MarksInternal (ns : List Node) : Prop :=
  Piece.marksOnly isInternal [internalName] []
    (Node.piecesIn false (Node.mapAttributesIn Node.arranged ns)) = true

instance (ns : List Node) : Decidable (MarksInternal ns) := inferInstanceAs (Decidable (_ = _))

namespace ClassAttribute

/-- The name under which classes are held when formatted markup is read again. -/
def heldName : ClassAttribute → String
  | .plain => "class"
  | .camel => internalName

end ClassAttribute

theorem lower_heldName (a : ClassAttribute) : Text.lower a.heldName = a.heldName := by
  cases a <;> decide +kernel

theorem writable_heldName (a : ClassAttribute) : Writable a.heldName.toList := by
  cases a <;> decide +kernel

theorem writable_name (a : ClassAttribute) : Writable a.name.toList := by
  cases a <;> decide +kernel

/-- Read back, the class attribute has the name under which it is held. -/
theorem Settled.readBack_held {a : ClassAttribute} {name : String} {as : Attributes}
    (h : Settled a.heldName as) :
    Token.readBack (renameKeys [internalName] a.heldName (Node.arranged name as)) =
      renameKeys [internalName] a.heldName (Node.arranged name as) := by
  have hlower : Settled (Text.lower a.heldName) (Node.arranged name as) := by
    rw [lower_heldName]
    exact h.arranged
  rw [hlower.readBack_renameKeys, lower_heldName]

instance (value : String) : Decidable (Unquoted value) := inferInstanceAs (Decidable (¬ _))

/-- In the text of the trees, class attributes are bound where the trees have them and nowhere
else. -/
def Undisturbed : ClassAttribute → List Node → Prop
  | .plain, ns =>
    let ps := Node.piecesIn false (Node.spelled "class" ns)
    Piece.marksOnly (isBinding .camel) [] [] ps = true ∧
      Piece.marksOnly (isBinding .plain) ["class"] [] ps = true
  | .camel, ns =>
    let ps := Node.piecesIn false (Node.spelled internalName ns)
    Piece.marksOnly (isBinding .camel) ["className"] []
      (Node.piecesIn false (Node.spelled "className" ns)) = true ∧
    Piece.marksOnly (isBinding .camel) [] [] ps = true ∧
      Piece.marksOnly (isBinding .plain) [] [] ps = true

instance (a : ClassAttribute) (ns : List Node) : Decidable (Undisturbed a ns) :=
  match a with
  | .plain => inferInstanceAs (Decidable (_ ∧ _))
  | .camel => inferInstanceAs (Decidable (_ ∧ _ ∧ _))

/-- Formatted trees whose text, class attributes included, is read as it is meant. -/
structure Rereadable (a : ClassAttribute) (ns : List Node) : Prop where
  marked : MarksInternal ns
  legible : Node.legibleIn false false ns = true
  settled : ∀ r ∈ Node.routesIn ns, Settled a.heldName r.here.attributes
  unquoted : ∀ r ∈ Node.routesIn ns, ∀ x ∈ r.here.attributes,
    x.1 = internalName ∨ x.1 = "class" → Unquoted x.2
  undisturbed : Undisturbed a ns

instance (a : ClassAttribute) (ns : List Node) : Decidable (Rereadable a ns) :=
  decidable_of_iff (MarksInternal ns ∧ Node.legibleIn false false ns = true ∧
    (∀ r ∈ Node.routesIn ns, Settled a.heldName r.here.attributes) ∧
    (∀ r ∈ Node.routesIn ns, ∀ x ∈ r.here.attributes,
      x.1 = internalName ∨ x.1 = "class" → Unquoted x.2) ∧ Undisturbed a ns)
    ⟨fun h => ⟨h.1, h.2.1, h.2.2.1, h.2.2.2.1, h.2.2.2.2⟩,
      fun h => ⟨h.marked, h.legible, h.settled, h.unquoted, h.undisturbed⟩⟩

theorem mem_of_mem_arranged {name key value : String} {as : Attributes}
    (h : (key, value) ∈ Node.arranged name as) (hcharset : key ≠ "charset")
    (hcontent : key ≠ "content") : (key, value) ∈ as := by
  obtain ⟨f, hf, hsame⟩ := exists_declaredAttributes name as
  rw [Node.arranged, hf] at h
  obtain ⟨⟨k, v⟩, hmem, heq⟩ := List.mem_map.mp ((List.mergeSort_perm _ _).mem_iff.mp h)
  cases heq
  rw [hsame k v hcharset hcontent]
  exact hmem

namespace Rereadable

variable {a : ClassAttribute} {ns : List Node}

/-- The class attributes have no double quotes in their values. -/
theorem valued (h : Rereadable a ns) :
    Piece.Valued [a.name] Unquoted (Node.piecesIn false (Node.spelled a.name ns)) := by
  intro key value hmem hkey
  rw [List.mem_singleton] at hkey
  rw [Node.spelled_eq] at hmem
  obtain ⟨r, hr, hr'⟩ := Node.exists_route_of_namedIn false ns hmem
  obtain ⟨⟨k, v⟩, hb, heq⟩ := List.mem_map.mp hr'
  have hvalue : v = value := congrArg Prod.snd heq
  have hname : (if [internalName].contains k = true then a.name else k) = key :=
    congrArg Prod.fst heq
  subst hvalue hkey
  have hk : k = internalName ∨ k = "class" := by
    by_cases hinternal : k = internalName
    · exact Or.inl hinternal
    · rw [if_neg (by simpa using hinternal)] at hname
      have hlower := (h.settled r hr).lower k (keys_arranged.mem_iff.mp (List.mem_map_of_mem hb))
      cases a with
      | plain => exact Or.inr hname
      | camel =>
        -- the camel-case name is no name in lower case
        rw [hname] at hlower
        exact absurd hlower (by decide +kernel)
  refine h.unquoted r hr (k, v) (mem_of_mem_arranged hb ?_ ?_) hk
  · rcases hk with rfl | rfl <;> decide
  · rcases hk with rfl | rfl <;> decide

theorem renameIn_camel (h : Rereadable .camel ns) :
    Node.renameIn ["className"] internalName (Node.spelled "className" ns) =
      Node.spelled internalName ns := by
  rw [Node.renameIn, Node.spelled_eq, Node.mapAttributesIn_mapAttributesIn, Node.spelled_eq]
  refine Node.mapAttributesIn_congr ns fun r hr => ?_
  have hnot : "className" ∉ (Node.arranged r.here.name r.here.attributes).map Prod.fst := by
    intro hmem
    have hlower := (h.settled r hr).lower _ (keys_arranged.mem_iff.mp hmem)
    exact absurd hlower (by decide +kernel)
  rw [renameKeys_self, renameKeys_renameKeys hnot]

theorem spell_spelled (target : String) :
    Piece.spell (Node.piecesIn false (Node.spelled target ns)) =
      Node.writeIn false (Node.spelled target ns) :=
  Node.spell_piecesIn false _

/-- Renaming the pieces is renaming the trees. -/
theorem spell_rename {keys : List String} {target : String} (ns : List Node) :
    Piece.spell ((Node.piecesIn false ns).map (Piece.rename keys target)) =
      Node.writeIn false (Node.renameIn keys target ns) := by
  rw [← Node.piecesIn_rename, Node.spell_piecesIn]
  rfl

/-- The class attributes of rereadable trees are read as they are meant. -/
theorem readableClasses_spelled (h : Rereadable a ns) :
    readableClasses a (Node.writeIn false (Node.spelled a.name ns)) =
      ⟨Node.writeIn false (Node.spelled a.heldName ns), false⟩ := by
  have hvalued := h.valued
  cases a with
  | plain =>
    obtain ⟨hcamel, hplain⟩ := h.undisturbed
    obtain ⟨hself, hbound⟩ := rebind_of_none hcamel internalName
    -- rewriting `class` as `class` leaves the text as it is
    have hsame : Piece.spell ((Node.piecesIn false (Node.spelled "class" ns)).map
        (Piece.rename [ClassAttribute.plain.name] "class")) =
          Piece.spell (Node.piecesIn false (Node.spelled "class" ns)) := by
      have hkeys : Node.renameIn ["class"] "class" (Node.spelled "class" ns) =
          Node.spelled "class" ns := by
        rw [Node.renameIn, Node.spelled_eq, Node.mapAttributesIn_mapAttributesIn]
        exact Node.mapAttributesIn_congr ns fun _ _ => renameKeys_self
      rw [spell_rename, Node.spell_piecesIn]
      exact congrArg _ hkeys
    have hrebind := rebind_spell "class" hplain hvalued (by
      rw [hsame]
      exact Piece.replaceAll_spell_self marks_bound (passes_bound beginsWith_quoted (by decide))
        hplain hvalued)
    rw [hsame] at hrebind
    rw [spell_spelled] at hself hbound hrebind
    simp only [readableClasses, ClassAttribute.name, ClassAttribute.heldName]
    rw [hself, hrebind, hbound]
  | camel =>
    obtain ⟨hcamel, hnone, hplain⟩ := h.undisturbed
    have hheld : Piece.spell ((Node.piecesIn false (Node.spelled "className" ns)).map
        (Piece.rename [ClassAttribute.camel.name] internalName)) =
          Piece.spell (Node.piecesIn false (Node.spelled internalName ns)) := by
      rw [spell_rename, Node.spell_piecesIn]
      exact congrArg _ h.renameIn_camel
    have hrebind := rebind_spell internalName hcamel hvalued (by
      rw [hheld]
      exact replaceAll_of_none hnone _ _)
    rw [hheld] at hrebind
    obtain ⟨hself, hbound⟩ := rebind_of_none hplain internalName
    rw [spell_spelled] at hself hbound hrebind
    rw [spell_spelled] at hrebind
    simp only [readableClasses, ClassAttribute.name, ClassAttribute.heldName]
    rw [hrebind, hself, hbound]

end Rereadable

end BlockMarkup.Markup
