import BlockMarkup.Proofs.Regex.Preferred

/-! # Matches part by part

Matches are replaced and listed from left to right. Where no match goes over the end of a part of a
text, the part can be looked at alone: `Respells` says what it is replaced by wherever it stands, and
`Gives` which matches are found in it. Both hold of parts side by side if they hold of each
(`Adds.append`), and of the whole text they say what replacing returns (`Respells.replaceAll`) and
which matches there are (`Gives.allMatches`).
-/

namespace BlockMarkup.Regex

open Cursor (spot)

variable {r : Regex} {before rest cs cs' : List Char}

section Adds

variable {β : Type} {P : List Char → List Char → List β → Prop} {out out' : List β}

/-- Where `P` says what comes of a text behind other characters, these characters add their part to
what comes of the rest, wherever they stand. -/
def Adds (P : List Char → List Char → List β → Prop) (cs : List Char) (out : List β) : Prop :=
  ∀ before rest more, P (cs.reverse ++ before) rest more → P before (cs ++ rest) (out ++ more)

theorem adds_nil : Adds P [] [] := fun _ _ _ h => h

theorem Adds.append (h : Adds P cs out) (h' : Adds P cs' out') : Adds P (cs ++ cs') (out ++ out') := by
  intro before rest more hmore
  rw [List.reverse_append, List.append_assoc] at hmore
  rw [List.append_assoc, List.append_assoc]
  exact h _ _ _ (h' _ _ _ hmore)

/-- What is said of the whole text. -/
theorem Adds.whole (h : Adds P cs out) (hend : P cs.reverse [] []) : P [] cs out := by
  have hwhole := h [] [] []
  rw [List.append_nil, List.append_nil, List.append_nil] at hwhole
  exact hwhole hend

end Adds

/-! ## Replacing -/

section Respells

variable {f : Match → List Char} {out out' : List Char}

/-- Wherever the characters stand, others stand there when the matches are replaced. -/
def Respells (r : Regex) (f : Match → List Char) (cs out : List Char) : Prop :=
  Adds (Rewrites r f) cs out

/-- Where the pattern matches nowhere, the characters stay. -/
theorem respells_self (h : ∀ before rest, Silent r before cs rest) : Respells r f cs cs :=
  fun before rest _ hmore => Rewrites.skips (h before rest) hmore

/-- A match is replaced as a whole. -/
theorem respells_eaten {groups : List Char → List (Nat × Capture)} (hcs : cs ≠ [])
    (h : ∀ before rest, Eats r cs before rest [] (groups rest)) :
    Respells r (fun _ => out) cs out :=
  fun before rest _ hmore => .hit hcs (h before rest some _ rfl) hmore

/-- The whole text with its matches replaced. -/
theorem Respells.replaceAll (h : Respells r f cs out)
    (hend : ∀ before, run r (spot before [] []) some = none) : replaceAll r f cs = out :=
  (Adds.whole h (.nil (hend _))).replaceAll

end Respells

/-! ## Listing -/

section Finds

variable {α : Type} {f : Match → α} {out out' : List α}

/-- What `f` makes of the matches in a text, one match after the other. -/
inductive Finds (r : Regex) (f : Match → α) : List Char → List Char → List α → Prop where
  | done {before cs : List Char} : Silent r before cs [] →
      run r (spot (cs.reverse ++ before) [] []) some = none → Finds r f before cs []
  | hit {before x cs rest : List Char} {groups : List (Nat × Capture)} {out : List α} :
      Silent r before x (cs ++ rest) → cs ≠ [] →
      run r (spot (x.reverse ++ before) (cs ++ rest) []) some =
        some (spot (cs.reverse ++ (x.reverse ++ before)) rest groups) →
      Finds r f (cs.reverse ++ (x.reverse ++ before)) rest out →
      Finds r f before (x ++ (cs ++ rest))
        (f ⟨spot (x.reverse ++ before) (cs ++ rest) [],
          spot (cs.reverse ++ (x.reverse ++ before)) rest groups⟩ :: out)

/-- Where the pattern matches nowhere, nothing is found. -/
theorem Finds.skips (hsilent : Silent r before cs rest)
    (h : Finds r f (cs.reverse ++ before) rest out) : Finds r f before (cs ++ rest) out := by
  cases h with
  | done hrest hend =>
    refine .done (Silent.append ?_ hrest) ?_
    · rwa [List.append_nil]
    · rwa [List.reverse_append, List.append_assoc]
  | @hit _ x cs' rest groups out hx hcs' hmatch hmore =>
    have hbefore : x.reverse ++ (cs.reverse ++ before) = (cs ++ x).reverse ++ before := by
      rw [List.reverse_append, List.append_assoc]
    rw [hbefore] at hmatch hmore ⊢
    have hhit := Finds.hit (hsilent.append hx) hcs' hmatch hmore
    rwa [List.append_assoc] at hhit

theorem Finds.filterMap_piecesFrom {s : List Char} (h : Finds r f before s out) (fuel : Nat)
    (hfuel : s.length < fuel) (groups : List (Nat × Capture)) :
    ((piecesFrom r fuel false (spot before s groups)).filterMap fun
      | .plain _ => none
      | .hit m => some (f m)) = out := by
  induction h generalizing fuel groups with
  | @done before cs hsilent hend =>
    obtain ⟨fuel, rfl⟩ : ∃ n, fuel = n + 1 := ⟨fuel - 1, by omega⟩
    have hfound : findFrom r false (spot before cs groups).before (spot before cs groups).after
        (spot before cs groups).pos = none := findFrom_eq_none hsilent hend
    rw [piecesFrom, hfound]
    rfl
  | @hit before x cs rest groups' out hsilent hcs hmatch _ ih =>
    have hlength := List.length_pos_iff.mpr hcs
    simp only [List.length_append] at hfuel
    obtain ⟨fuel, rfl⟩ : ∃ n, fuel = n + 1 := ⟨fuel - 1, by omega⟩
    have hfound : findFrom r false (spot before (x ++ (cs ++ rest)) groups).before
        (spot before (x ++ (cs ++ rest)) groups).after
        (spot before (x ++ (cs ++ rest)) groups).pos =
          some ⟨spot (x.reverse ++ before) (cs ++ rest) [],
            spot (cs.reverse ++ (x.reverse ++ before)) rest groups'⟩ :=
      findFrom_eq hsilent hmatch
    -- the match has consumed something, so that the next one may be empty
    have hpos : ((spot (cs.reverse ++ (x.reverse ++ before)) rest groups').pos ==
        (spot (x.reverse ++ before) (cs ++ rest) []).pos) = false := by
      simp only [spot, List.length_append, List.length_reverse, beq_eq_false_iff_ne, ne_eq]
      omega
    rw [piecesFrom, hfound]
    dsimp only
    rw [hpos, List.filterMap_cons, List.filterMap_cons, ih fuel (by omega) groups']

theorem Finds.allMatches {s : List Char} (h : Finds r f [] s out) :
    (allMatches r s).map f = out := by
  rw [Regex.allMatches, pieces, List.map_filterMap]
  refine Eq.trans (congrArg (List.filterMap · _) (funext fun p => ?_))
    (h.filterMap_piecesFrom (2 * s.length + 2) (by omega) [])
  cases p with
  | plain t => rfl
  | hit m => rfl

/-- Wherever the characters stand, this is found in them. -/
def Gives (r : Regex) (f : Match → α) (cs : List Char) (out : List α) : Prop :=
  Adds (Finds r f) cs out

theorem gives_of_silent (h : ∀ before rest, Silent r before cs rest) : Gives r f cs [] :=
  fun before rest _ hmore => Finds.skips (h before rest) hmore

/-- A match is found as a whole. -/
theorem gives_eaten {a : α} {groups : List Char → List (Nat × Capture)} (hcs : cs ≠ [])
    (h : ∀ before rest, Eats r cs before rest [] (groups rest))
    (hf : ∀ before rest, f ⟨spot before (cs ++ rest) [],
      spot (cs.reverse ++ before) rest (groups rest)⟩ = a) : Gives r f cs [a] := by
  intro before rest more hmore
  have hhit := Finds.hit (f := f) (x := []) silent_nil hcs (h before rest some _ rfl) hmore
  rwa [List.reverse_nil, List.nil_append, hf] at hhit

/-- All matches of the whole text. -/
theorem Gives.allMatches (h : Gives r f cs out)
    (hend : ∀ before, run r (spot before [] []) some = none) :
    (Regex.allMatches r cs).map f = out :=
  (Adds.whole h (.done silent_nil (hend _))).allMatches

end Finds

end BlockMarkup.Regex
