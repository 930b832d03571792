import BlockMarkup.Proofs.Markup.Respelled

/-! # The pieces of written trees

Trees as the pieces that they are written in (`Node.spell_piecesIn`). Renaming attributes in the
pieces is renaming them in the trees (`Node.piecesIn_rename`).
-/

namespace BlockMarkup.Markup

/-- The attributes with another name for those of some names. -/
def renameKeys (keys : List String) (target : String) (as : Attributes) : Attributes :=
  as.map fun a => (if keys.contains a.1 then target else a.1, a.2)

namespace Node

mutual

/-- The pieces in which a node is written. -/
def pieces (verbatim : Bool) : Node → List Piece
  | .leaf kind s => [.plain (renderLeaf verbatim kind s)]
  | .element name attributes children =>
    .plain ('<' :: name.toList) ::
      (attributes.flatMap (fun a => [.plain [' '], .named a.1 a.2]) ++
        if children.isEmpty && voidNames.contains name then [.plain ['/', '>']]
        else
          .plain ['>'] :: (piecesIn (verbatimNames.contains name) children ++
            [.plain ('<' :: '/' :: (name.toList ++ ['>']))]))

/-- The pieces in which the content of an element is written. -/
def piecesIn (verbatim : Bool) : List Node → List Piece
  | [] => []
  | n :: rest => pieces verbatim n ++ piecesIn verbatim rest

end

/-- The trees with another name for attributes of some names. -/
def renameIn (keys : List String) (target : String) (ns : List Node) : List Node :=
  mapAttributesIn (fun _ as => renameKeys keys target as) ns

theorem spell_attributes (as : Attributes) :
    Piece.spell (as.flatMap fun a => [.plain [' '], .named a.1 a.2]) = attributesText as := by
  induction as with
  | nil => rfl
  | cons a as ih =>
    rw [List.flatMap_cons, Piece.spell, List.flatMap_append, ← Piece.spell, ← Piece.spell, ih]
    simp [Piece.spell, Piece.text, attributesText]

theorem spell_append (ps qs : List Piece) :
    Piece.spell (ps ++ qs) = Piece.spell ps ++ Piece.spell qs :=
  List.flatMap_append

mutual

theorem spell_pieces (verbatim : Bool) : ∀ n : Node,
    Piece.spell (pieces verbatim n) = write verbatim n
  | .leaf kind s => List.append_nil _
  | .element name attributes children => by
    rw [pieces, write, Piece.spell_cons, spell_append, spell_attributes]
    split
    · simp [Piece.spell, Piece.text]
    · rw [Piece.spell_cons, spell_append, spell_piecesIn]
      simp [Piece.spell, Piece.text]

theorem spell_piecesIn (verbatim : Bool) : ∀ ns : List Node,
    Piece.spell (piecesIn verbatim ns) = writeIn verbatim ns
  | [] => rfl
  | n :: rest => by
    rw [piecesIn, writeIn, spell_append, spell_pieces, spell_piecesIn]

end

variable {keys : List String} {target : String}

theorem map_rename_attributes (as : Attributes) :
    (as.flatMap fun a => [Piece.plain [' '], .named a.1 a.2]).map (Piece.rename keys target) =
      (renameKeys keys target as).flatMap fun a => [.plain [' '], .named a.1 a.2] := by
  induction as with
  | nil => rfl
  | cons a as ih =>
    rw [List.flatMap_cons, List.map_append, ih]
    rfl

mutual

theorem pieces_rename (verbatim : Bool) : ∀ n : Node,
    pieces verbatim (n.mapAttributes fun _ as => renameKeys keys target as) =
      (pieces verbatim n).map (Piece.rename keys target)
  | .leaf kind s => rfl
  | .element name attributes children => by
    have hempty : (mapAttributesIn (fun _ as => renameKeys keys target as) children).isEmpty =
        children.isEmpty := by
      cases children <;> rfl
    rw [mapAttributes, pieces, pieces, hempty, List.map_cons, List.map_append,
      map_rename_attributes]
    split
    · rfl
    · rw [List.map_cons, List.map_append, ← piecesIn_rename (verbatimNames.contains name) children]
      rfl

theorem piecesIn_rename (verbatim : Bool) : ∀ ns : List Node,
    piecesIn verbatim (mapAttributesIn (fun _ as => renameKeys keys target as) ns) =
      (piecesIn verbatim ns).map (Piece.rename keys target)
  | [] => rfl
  | n :: rest => by
    rw [mapAttributesIn, piecesIn, piecesIn, List.map_append, pieces_rename, piecesIn_rename]

end

end Node

end BlockMarkup.Markup
