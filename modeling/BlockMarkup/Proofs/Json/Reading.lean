import BlockMarkup.Proofs.Json.Between

/-! # What the reader of JSON accepts

The reader returns a value just for the texts that the grammar gives this value, unless an integer in them
is too long (`read_eq_ok_iff`), and it reports an integer as too long just for the texts that are in order up
to one (`exists_read_eq_error_iff`).

Both are shown along the recursion of the reader: what it returns stands in the text (`sound`), and what
stands in the text it returns (`Denotes.isRead`, `Overlong.isRefused`).
-/

namespace BlockMarkup.Json

variable {α β : Type} {s s' t u : List Char} {c : Char}

/-! ## Reading with what is between the parts -/

/-- Reads what begins with a bracket: nothing up to the closing one, or what follows. -/
def readOpened (close : Char) (s : Scan) (empty follow : Scan → Except FaultAt α) : Except FaultAt α :=
  let s := s.skipBlanks
  if s.rest.head? = some close then empty (s.advance 1) else follow s

/-- Reads on behind an item or a member: it was the last one, or there are more. -/
def readOn (close : Char) (s : Scan) (last more : Scan → Except FaultAt α) : Except FaultAt α :=
  let s := s.skipBlanks
  if s.rest.head? = some close then last (s.advance 1)
  else if s.rest.head? = some ',' then more (s.advance 1).skipBlanks
  else s.fail .expectingComma

/-- Reads a key and the colon behind it. -/
def readKey (s : Scan) : Except FaultAt (String × Scan) :=
  if s.rest.head? = some '"' then
    readString (s.advance 1) >>= fun (key, s) =>
      let s := s.skipBlanks
      if s.rest.head? = some ':' then .ok (key, (s.advance 1).skipBlanks) else s.fail .expectingColon
  else s.fail .expectingName

section Equations

variable {fuel p : Nat}

theorem readValue_string :
    readValue (fuel + 1) ⟨'"' :: s, p⟩ =
      readString ⟨s, p + 1⟩ >>= fun (text, s) => .ok (.str text, s) := by
  rw [readValue]
  rfl

theorem readValue_array :
    readValue (fuel + 1) ⟨'[' :: s, p⟩ =
      readOpened ']' ⟨s, p + 1⟩ (fun s => .ok (.arr [], s))
        fun s => readItems fuel s >>= fun (vs, s) => .ok (.arr vs, s) := by
  rw [readValue]
  rfl

theorem readValue_object :
    readValue (fuel + 1) ⟨'\x7b' :: s, p⟩ =
      readOpened '\x7d' ⟨s, p + 1⟩ (fun s => .ok (.obj [], s))
        fun s => readMembers fuel [] s >>= fun (ms, s) => .ok (.obj ms, s) := by
  rw [readValue]
  rfl

theorem readValue_word {w : List Char} {v : Json} (h : (w, v) ∈ wordValues) :
    readValue (fuel + 1) ⟨w ++ t, p⟩ = .ok (v, ⟨t, p + w.length⟩) := by
  simp only [wordValues, List.mem_cons, Prod.mk.injEq, List.not_mem_nil, or_false] at h
  obtain ⟨rfl, rfl⟩ | ⟨rfl, rfl⟩ | ⟨rfl, rfl⟩ | ⟨rfl, rfl⟩ | ⟨rfl, rfl⟩ | ⟨rfl, rfl⟩ := h <;> rfl

theorem readValue_else {s : Scan} (hstring : s.rest.head? ≠ some '"')
    (hobject : s.rest.head? ≠ some '\x7b') (harray : s.rest.head? ≠ some '[') :
    readValue (fuel + 1) s =
      match wordValues.find? (·.1.isPrefixOf s.rest) with
      | some (w, v) => .ok (v, s.advance w.length)
      | none => readNumber s >>= fun r =>
        match r with
        | some r => .ok r
        | none => s.fail .expectingValue := by
  rw [readValue]
  split
  · next h => exact absurd (by rw [h]; rfl) hstring
  · next h => exact absurd (by rw [h]; rfl) hobject
  · next h => exact absurd (by rw [h]; rfl) harray
  · rfl

theorem readValue_number {n : Numeral} (hn : n.IsProper) (ht : Stops t) :
    readValue (fuel + 1) ⟨n.text ++ t, p⟩ =
      if n.IsLong then .error ⟨.longInteger n.whole.length, p⟩
      else .ok (n.value, ⟨t, p + n.text.length⟩) := by
  obtain ⟨d, u, hd, hfront⟩ := hn.front t
  have hne : ∀ c : Char, c.isDigit = false → c ≠ d := fun c hc h => by simp [← h, hc] at hd
  -- no word begins with a digit, nor with a hyphen and a digit
  have hfind : wordValues.find? (·.1.isPrefixOf (n.text ++ t)) = none := by
    rw [List.find?_eq_none]
    rintro ⟨w, v⟩ h
    simp only [wordValues, List.mem_cons, Prod.mk.injEq, List.not_mem_nil, or_false] at h
    obtain hfront | hfront := hfront <;> rw [hfront] <;>
      obtain ⟨rfl, -⟩ | ⟨rfl, -⟩ | ⟨rfl, -⟩ | ⟨rfl, -⟩ | ⟨rfl, -⟩ | ⟨rfl, -⟩ := h <;>
        simp [List.isPrefixOf, hne]
  have hhead : ∀ c : Char, c.isDigit = false → c ≠ '-' → (n.text ++ t).head? ≠ some c := by
    intro c hc hminus
    obtain hfront | hfront := hfront <;> rw [hfront]
    · simpa using (hne c hc).symm
    · simpa using hminus.symm
  rw [readValue_else (hhead _ (by decide) (by decide)) (hhead _ (by decide) (by decide))
    (hhead _ (by decide) (by decide)), hfind, readNumber_text hn ht]
  by_cases hlong : n.IsLong
  · rw [if_pos hlong, if_pos hlong]
    rfl
  · rw [if_neg hlong, if_neg hlong]
    rfl

theorem readItems_succ (s : Scan) :
    readItems (fuel + 1) s = readValue fuel s >>= fun (v, s) =>
      readOn ']' s (fun s => .ok ([v], s))
        fun s => readItems fuel s >>= fun (vs, s) => .ok (v :: vs, s) := by
  rw [readItems]
  refine bind_congr fun ⟨v, s⟩ => ?_
  simp only [readOn]
  split
  · next h => simp [h]; rfl
  · next h => simp [h]; rfl
  · next h h' => rw [if_neg h, if_neg h']

theorem readMembers_succ (before : List (String × Json)) (s : Scan) :
    readMembers (fuel + 1) before s = readKey s >>= fun (key, s) =>
      readValue fuel s >>= fun (v, s) =>
        readOn '\x7d' s (fun s => .ok (setMember key v before, s))
          (readMembers fuel (setMember key v before)) := by
  rw [readMembers, readKey]
  by_cases hquote : s.rest.head? = some '"'
  · rw [if_neg (not_not_intro hquote), if_pos hquote, bind_assoc]
    refine bind_congr fun ⟨key, s⟩ => ?_
    dsimp only
    by_cases hcolon : s.skipBlanks.rest.head? = some ':'
    · rw [if_neg (not_not_intro hcolon), if_pos hcolon]
      refine bind_congr fun ⟨v, s⟩ => ?_
      simp only [readOn]
      split
      · next h => simp [h]; rfl
      · next h => simp [h]
      · next h h' => rw [if_neg h, if_neg h']
    · rw [if_pos hcolon, if_neg hcolon]
      rfl
  · rw [if_pos hquote, if_neg hquote]
    rfl

end Equations

/-! ## What is returned stands in the text -/

/-- What is returned and what is left have a property; that an integer is too long says another. -/
def Ensures (r : Except FaultAt (α × Scan)) (P : α → List Char → Prop) (Q : Prop) : Prop :=
  match r with
  | .ok (a, s) => P a s.rest
  | .error e => e.IsLong → Q

section Ensures

variable {P : α → List Char → Prop} {Q : Prop}

theorem ensures_fail (s : Scan) {f : Fault} (h : ∀ digits, f ≠ .longInteger digits) :
    Ensures (s.fail f) P Q := by
  rintro ⟨digits, hf⟩
  exact absurd hf (h digits)

theorem Ensures.imp {r : Except FaultAt (α × Scan)} {P' : α → List Char → Prop} {Q' : Prop}
    (h : Ensures r P' Q') (hP : ∀ a t, P' a t → P a t) (hQ : Q' → Q) : Ensures r P Q := by
  cases r with
  | error e => exact fun hlong => hQ (h hlong)
  | ok found => exact hP _ _ h

theorem Ensures.bind {r : Except FaultAt (β × Scan)} {f : β × Scan → Except FaultAt (α × Scan)}
    {P' : β → List Char → Prop} {Q' : Prop} (h : Ensures r P' Q') (hQ : Q' → Q)
    (hf : ∀ b s, P' b s.rest → Ensures (f (b, s)) P Q) : Ensures (r >>= f) P Q := by
  cases r with
  | error e => exact fun hlong => hQ (h hlong)
  | ok found => exact hf found.1 found.2 h

theorem rest_eq_cons {s : Scan} (h : s.rest.head? = some c) : s.rest = c :: (s.advance 1).rest := by
  obtain ⟨u, hu⟩ := List.head?_eq_some_iff.mp h
  rw [Scan.advance_rest, hu]
  rfl

theorem ensures_readOpened {close : Char} {s : Scan} {empty follow : Scan → Except FaultAt (α × Scan)}
    (hempty : ∀ s' : Scan, Gap s.rest (close :: s'.rest) → Ensures (empty s') P Q)
    (hfollow : ∀ s' : Scan, Gap s.rest s'.rest → Ensures (follow s') P Q) :
    Ensures (readOpened close s empty follow) P Q := by
  rw [readOpened]
  split
  · next h => exact hempty _ (rest_eq_cons h ▸ gap_skipBlanks s)
  · exact hfollow _ (gap_skipBlanks s)

theorem signAt_skipBlanks {s : Scan} (h : s.skipBlanks.rest.head? = some c) :
    SignAt c s.rest (s.skipBlanks.advance 1).skipBlanks.rest :=
  ⟨_, rest_eq_cons h ▸ gap_skipBlanks s, gap_skipBlanks _⟩

theorem ensures_readOn {close : Char} {s : Scan} {last more : Scan → Except FaultAt (α × Scan)}
    (hlast : ∀ s' : Scan, Gap s.rest (close :: s'.rest) → Ensures (last s') P Q)
    (hmore : ∀ s' : Scan, SignAt ',' s.rest s'.rest → Ensures (more s') P Q) :
    Ensures (readOn close s last more) P Q := by
  rw [readOn]
  split
  · next h => exact hlast _ (rest_eq_cons h ▸ gap_skipBlanks s)
  · split
    · next h => exact hmore _ (signAt_skipBlanks h)
    · exact ensures_fail _ (by simp)

theorem ensures_readString (s : Scan) :
    Ensures (readString s) (fun text t => ∃ cs, Quoted s.rest cs t ∧ String.ofList cs = text) False := by
  cases h : readString s with
  | error e => exact fun hlong => readString_error h hlong
  | ok found =>
    obtain ⟨cs, hcs, htext⟩ := readString_ok h
    exact ⟨cs, hcs, htext.symm⟩

theorem ensures_readKey (s : Scan) : Ensures (readKey s) (fun key t => KeyAt key s.rest t) False := by
  rw [readKey]
  split
  · next hquote =>
    refine (ensures_readString _).bind id ?_
    rintro key s' ⟨cs, hcs, hkey⟩
    dsimp only
    split
    · next hcolon => exact ⟨_, cs, _, rest_eq_cons hquote, hcs, hkey, signAt_skipBlanks hcolon⟩
    · exact ensures_fail _ (by simp)
  · exact ensures_fail _ (by simp)

end Ensures

/-- What is read with a number of levels stands in the text. -/
structure Sound (fuel : Nat) : Prop where
  value (s : Scan) : Ensures (readValue fuel s) (fun v t => Denotes s.rest (.value v) t)
    (Overlong .value s.rest)
  items (s : Scan) : Ensures (readItems fuel s) (fun vs t => Denotes s.rest (.items vs) t)
    (Overlong .items s.rest)
  members (before : List (String × Json)) (s : Scan) : Ensures (readMembers fuel before s)
    (fun all t => ∃ ms, Denotes s.rest (.members ms) t ∧ all = gathered before ms)
    (Overlong .members s.rest)

variable {fuel : Nat}

theorem Sound.readNumber (s : Scan) :
    Ensures (readNumber s >>= fun r => match r with
      | some r => .ok r
      | none => s.fail .expectingValue)
      (fun v t => Denotes s.rest (.value v) t) (Overlong .value s.rest) := by
  cases h : Json.readNumber s with
  | error e =>
    intro _
    obtain ⟨n, t, hn, hlong, hstops, ht⟩ := readNumber_error h
    rw [ht]
    exact .number hn hlong hstops
  | ok r =>
    cases r with
    | none => exact ensures_fail s (by simp)
    | some r =>
      obtain ⟨n, hn, hrest, hv⟩ := readNumber_ok h
      change Denotes s.rest (.value r.1) r.2.rest
      rw [hrest, hv]
      exact .number hn

theorem Sound.readValue (h : Sound fuel) (s : Scan) :
    Ensures (readValue (fuel + 1) s) (fun v t => Denotes s.rest (.value v) t)
      (Overlong .value s.rest) := by
  obtain ⟨rest, p⟩ := s
  by_cases hstring : rest.head? = some '"'
  · obtain ⟨s, rfl⟩ := List.head?_eq_some_iff.mp hstring
    rw [readValue_string]
    refine (ensures_readString _).bind False.elim ?_
    rintro text s' ⟨cs, hcs, rfl⟩
    exact .string hcs
  by_cases harray : rest.head? = some '['
  · obtain ⟨s, rfl⟩ := List.head?_eq_some_iff.mp harray
    rw [readValue_array]
    refine ensures_readOpened (fun s' hend => .emptyArray hend) fun s' hgap => ?_
    exact (h.items s').bind (.array hgap) fun vs t hvs => .array hgap hvs
  by_cases hobject : rest.head? = some '\x7b'
  · obtain ⟨s, rfl⟩ := List.head?_eq_some_iff.mp hobject
    rw [readValue_object]
    refine ensures_readOpened (fun s' hend => .emptyObject hend) fun s' hgap => ?_
    refine (h.members [] s').bind (.object hgap) ?_
    rintro _ t ⟨ms, hms, rfl⟩
    exact .object hgap hms
  rw [readValue_else hstring hobject harray]
  split
  · next w v hfind =>
    have hprefix : w.isPrefixOf rest = true := by simpa using List.find?_some hfind
    obtain ⟨t, rfl⟩ := List.isPrefixOf_iff_prefix.mp hprefix
    change Denotes (w ++ t) (.value v) ((w ++ t).drop w.length)
    rw [List.drop_left]
    exact .word (List.mem_of_find?_eq_some hfind)
  · exact Sound.readNumber _

theorem Sound.readItems (h : Sound fuel) (s : Scan) :
    Ensures (readItems (fuel + 1) s) (fun vs t => Denotes s.rest (.items vs) t)
      (Overlong .items s.rest) := by
  rw [readItems_succ]
  refine (h.value s).bind .firstItem fun v s' hv => ?_
  refine ensures_readOn (fun s'' hend => .lastItem hv hend) fun s'' hcomma => ?_
  exact (h.items s'').bind (.laterItem hv hcomma) fun vs t hvs => .item hv hcomma hvs

theorem Sound.readMembers (h : Sound fuel) (before : List (String × Json)) (s : Scan) :
    Ensures (readMembers (fuel + 1) before s)
      (fun all t => ∃ ms, Denotes s.rest (.members ms) t ∧ all = gathered before ms)
      (Overlong .members s.rest) := by
  rw [readMembers_succ]
  refine (ensures_readKey s).bind False.elim fun key s₁ hkey => ?_
  refine (h.value s₁).bind (.firstMember hkey) fun v s₂ hv => ?_
  refine ensures_readOn (fun s₃ hend => ⟨_, .lastMember hkey hv hend, rfl⟩) fun s₃ hcomma => ?_
  refine (h.members _ s₃).imp ?_ (.laterMember hkey hv hcomma)
  rintro _ t ⟨ms, hms, rfl⟩
  exact ⟨_, .member hkey hv hcomma hms, rfl⟩

theorem sound (fuel : Nat) : Sound fuel := by
  induction fuel with
  | zero =>
    exact ⟨fun s => ensures_fail s (by simp), fun s => ensures_fail s (by simp),
      fun _ s => ensures_fail s (by simp)⟩
  | succ fuel ih => exact ⟨ih.readValue, ih.readItems, ih.readMembers⟩

/-! ## What stands in the text is returned -/

/-- An integer is too long. -/
def Fails (r : Except FaultAt (α × Scan)) : Prop := ∃ e, r = .error e ∧ e.IsLong

/-- Something is returned, and the rest is left, unless an integer is too long. -/
def Reads (r : Except FaultAt (α × Scan)) (a : α) (t : List Char) : Prop :=
  (∃ p, r = .ok (a, ⟨t, p⟩)) ∨ Fails r

section Reads

variable {a : α} {b : β} {r : Except FaultAt (α × Scan)} {f : α × Scan → Except FaultAt (β × Scan)}

theorem reads_ok (a : α) (t : List Char) (p : Nat) : Reads (.ok (a, ⟨t, p⟩)) a t := .inl ⟨p, rfl⟩

theorem Fails.bind (h : Fails r) (f : α × Scan → Except FaultAt (β × Scan)) : Fails (r >>= f) := by
  obtain ⟨e, rfl, he⟩ := h
  exact ⟨e, rfl, he⟩

theorem Reads.bind (h : Reads r a t) (hf : ∀ p, Reads (f (a, ⟨t, p⟩)) b u) : Reads (r >>= f) b u := by
  obtain ⟨p, rfl⟩ | h := h
  · exact hf p
  · exact .inr (h.bind f)

theorem Reads.bind_fails (h : Reads r a t) (hf : ∀ p, Fails (f (a, ⟨t, p⟩))) : Fails (r >>= f) := by
  obtain ⟨p, rfl⟩ | h := h
  · exact hf p
  · exact h.bind f

end Reads

theorem KeyAt.reads {key : String} (h : KeyAt key s t) (ht : NoBlank t) (p : Nat) :
    Reads (readKey ⟨s, p⟩) key t := by
  obtain ⟨s, cs, u, rfl, hcs, rfl, v, hu, hv⟩ := h
  obtain ⟨p₁, hstring⟩ := readString_of_quoted hcs (p + 1)
  obtain ⟨p₂, hcolon⟩ := hu.skipBlanks (noBlank_cons (by decide)) p₁
  obtain ⟨p₃, hskip⟩ := hv.skipBlanks ht (p₂ + 1)
  refine .inl ⟨p₃, ?_⟩
  have hquote : Scan.advance 1 ⟨'"' :: s, p⟩ = ⟨s, p + 1⟩ := rfl
  have hbehind : Scan.advance 1 ⟨':' :: v, p₂⟩ = ⟨v, p₂ + 1⟩ := rfl
  rw [readKey, hquote, hstring]
  refine (if_pos rfl).trans ?_
  change (if (Scan.skipBlanks ⟨u, p₁⟩).rest.head? = some ':' then _ else _) = _
  rw [hcolon, hbehind, hskip]
  exact if_pos rfl

section Between

variable {empty follow last more : Scan → Except FaultAt (α × Scan)}

theorem readOpened_empty (close : Char) (hclose : close ∉ gapChars) (h : Gap s (close :: t)) (p : Nat) :
    ∃ p', readOpened close ⟨s, p⟩ empty follow = empty ⟨t, p'⟩ := by
  obtain ⟨p', hskip⟩ := h.skipBlanks (noBlank_cons hclose) p
  refine ⟨p' + 1, ?_⟩
  rw [readOpened, hskip]
  exact if_pos rfl

theorem readOpened_follow (close : Char) (hclose : close ∈ betweenChars) (h : Gap s t) (ht : Begins t)
    (p : Nat) : ∃ p', readOpened close ⟨s, p⟩ empty follow = follow ⟨t, p'⟩ := by
  obtain ⟨p', hskip⟩ := h.skipBlanks ht.noBlank p
  refine ⟨p', ?_⟩
  rw [readOpened, hskip]
  exact if_neg (ht.head?_ne hclose)

theorem readOn_last (close : Char) (hclose : close ∉ gapChars) (h : Gap s (close :: t)) (p : Nat) :
    ∃ p', readOn close ⟨s, p⟩ last more = last ⟨t, p'⟩ := by
  obtain ⟨p', hskip⟩ := h.skipBlanks (noBlank_cons hclose) p
  refine ⟨p' + 1, ?_⟩
  rw [readOn, hskip]
  exact if_pos rfl

theorem readOn_more (close : Char) (hclose : close ≠ ',') (h : SignAt ',' s t) (ht : NoBlank t) (p : Nat) :
    ∃ p', readOn close ⟨s, p⟩ last more = more ⟨t, p'⟩ := by
  obtain ⟨u, hu, hgap⟩ := h
  obtain ⟨p₁, hcomma⟩ := hu.skipBlanks (noBlank_cons (by decide)) p
  obtain ⟨p₂, hskip⟩ := hgap.skipBlanks ht (p₁ + 1)
  have hbehind : Scan.advance 1 ⟨',' :: u, p₁⟩ = ⟨u, p₁ + 1⟩ := rfl
  refine ⟨p₂, ?_⟩
  rw [readOn, hcomma]
  dsimp only
  rw [if_neg (by simpa using hclose.symm), hbehind, hskip]
  exact if_pos rfl

end Between

theorem SignAt.follows (h : SignAt c s t) (hc : c ∈ betweenChars) : Follows s := by
  obtain ⟨u, hu, -⟩ := h
  exact hu.follows (follows_cons hc)

/-- A part of a text is read, given levels enough. -/
def IsRead (s : List Char) (part : Part) (t : List Char) : Prop :=
  match part with
  | .value v => Follows t → ∀ fuel p, 2 * s.length ≤ fuel → Reads (readValue (fuel + 1) ⟨s, p⟩) v t
  | .items vs => ∀ fuel p, 2 * s.length + 1 ≤ fuel → Reads (readItems (fuel + 1) ⟨s, p⟩) vs t
  | .members ms => ∀ fuel before p, 2 * s.length + 1 ≤ fuel →
    Reads (readMembers (fuel + 1) before ⟨s, p⟩) (gathered before ms) t

section IsRead

variable {v : Json} {vs : List Json} {before ms : List (String × Json)}

theorem IsRead.value (h : IsRead s (.value v) t) (ht : Follows t) (hfuel : 2 * s.length < fuel)
    (p : Nat) : Reads (readValue fuel ⟨s, p⟩) v t := by
  obtain ⟨fuel, rfl⟩ := Nat.exists_eq_add_one_of_ne_zero (Nat.ne_zero_of_lt hfuel)
  exact h ht fuel p (Nat.le_of_lt_succ hfuel)

theorem IsRead.items (h : IsRead s (.items vs) t) (hfuel : 2 * s.length + 1 < fuel) (p : Nat) :
    Reads (readItems fuel ⟨s, p⟩) vs t := by
  obtain ⟨fuel, rfl⟩ := Nat.exists_eq_add_one_of_ne_zero (Nat.ne_zero_of_lt hfuel)
  exact h fuel p (Nat.le_of_lt_succ hfuel)

theorem IsRead.members (h : IsRead s (.members ms) t) (hfuel : 2 * s.length + 1 < fuel) (p : Nat) :
    Reads (readMembers fuel before ⟨s, p⟩) (gathered before ms) t := by
  obtain ⟨fuel, rfl⟩ := Nat.exists_eq_add_one_of_ne_zero (Nat.ne_zero_of_lt hfuel)
  exact h fuel before p (Nat.le_of_lt_succ hfuel)

end IsRead

/-- Reading is by the constructors of the grammar. Every bracket and every comma takes a character, which
pays for the levels that its parts are read with. -/
theorem Denotes.isRead {part : Part} (h : Denotes s part t) : IsRead s part t := by
  -- a bracket needs a level for itself and one for its first part, and is paid for by being consumed
  induction h with
  | word h =>
    intro _ fuel p _
    rw [readValue_word h]
    exact reads_ok _ _ _
  | number hn =>
    intro hfollows fuel p _
    rw [readValue_number hn hfollows.stops]
    -- the grammar has integers of any length
    split
    · exact .inr ⟨_, rfl, _, rfl⟩
    · exact reads_ok _ _ _
  | string hcs =>
    intro _ fuel p _
    obtain ⟨p', hread⟩ := readString_of_quoted hcs (p + 1)
    rw [readValue_string, hread]
    exact reads_ok _ _ _
  | emptyArray hend =>
    intro _ fuel p _
    obtain ⟨p', hread⟩ := readOpened_empty ']' (by decide) hend (p + 1)
    rw [readValue_array, hread]
    exact reads_ok _ _ _
  | array hgap hitems ih =>
    intro _ fuel p hfuel
    obtain ⟨p', hread⟩ := readOpened_follow ']' (by decide) hgap hitems.begins (p + 1)
    have hlength := hgap.length_le
    simp only [List.length_cons] at hfuel
    rw [readValue_array, hread]
    exact (ih.items (by omega) p').bind fun p => reads_ok _ _ _
  | emptyObject hend =>
    intro _ fuel p _
    obtain ⟨p', hread⟩ := readOpened_empty '\x7d' (by decide) hend (p + 1)
    rw [readValue_object, hread]
    exact reads_ok _ _ _
  | object hgap hmembers ih =>
    intro _ fuel p hfuel
    obtain ⟨p', hread⟩ := readOpened_follow '\x7d' (by decide) hgap hmembers.begins (p + 1)
    have hlength := hgap.length_le
    simp only [List.length_cons] at hfuel
    rw [readValue_object, hread]
    exact (ih.members (by omega) p').bind fun p => reads_ok _ _ _
  | lastItem hv hend ih =>
    intro fuel p hfuel
    have hfollows : Follows _ := hend.follows (follows_cons (by decide))
    rw [readItems_succ]
    refine (ih.value hfollows (by omega) p).bind fun p => ?_
    obtain ⟨p', hread⟩ := readOn_last ']' (by decide) hend p
    dsimp only
    rw [hread]
    exact reads_ok _ _ _
  | item hv hcomma hrest ih ihrest =>
    intro fuel p hfuel
    have hlength := hcomma.length_lt
    have hlength' := hv.length_le
    rw [readItems_succ]
    refine (ih.value (hcomma.follows (by decide)) (by omega) p).bind fun p => ?_
    obtain ⟨p', hread⟩ := readOn_more ']' (by decide) hcomma hrest.begins.noBlank p
    dsimp only
    rw [hread]
    exact (ihrest.items (by omega) p').bind fun p => reads_ok _ _ _
  | lastMember hkey hv hend ih =>
    intro fuel before p hfuel
    have hlength := hkey.length_lt
    have hfollows : Follows _ := hend.follows (follows_cons (by decide))
    rw [readMembers_succ]
    refine (hkey.reads hv.begins.noBlank p).bind fun p => ?_
    refine (ih.value hfollows (by omega) p).bind fun p => ?_
    obtain ⟨p', hread⟩ := readOn_last '\x7d' (by decide) hend p
    dsimp only
    rw [hread]
    exact reads_ok _ _ _
  | member hkey hv hcomma hrest ih ihrest =>
    intro fuel before p hfuel
    have hlength := hcomma.length_lt
    have hlength' := hv.length_le
    have hlength'' := hkey.length_lt
    rw [readMembers_succ]
    refine (hkey.reads hv.begins.noBlank p).bind fun p => ?_
    refine (ih.value (hcomma.follows (by decide)) (by omega) p).bind fun p => ?_
    obtain ⟨p', hread⟩ := readOn_more '\x7d' (by decide) hcomma hrest.begins.noBlank p
    dsimp only
    rw [hread]
    exact ihrest.members (by omega) p'

/-! ## Integers that are too long -/

/-- Reading fails at too long an integer, given levels enough. -/
def IsRefused (place : Place) (s : List Char) : Prop :=
  match place with
  | .value => ∀ fuel p, 2 * s.length ≤ fuel → Fails (readValue (fuel + 1) ⟨s, p⟩)
  | .items => ∀ fuel p, 2 * s.length + 1 ≤ fuel → Fails (readItems (fuel + 1) ⟨s, p⟩)
  | .members => ∀ fuel before p, 2 * s.length + 1 ≤ fuel →
    Fails (readMembers (fuel + 1) before ⟨s, p⟩)

theorem IsRefused.value (h : IsRefused .value s) (hfuel : 2 * s.length < fuel) (p : Nat) :
    Fails (readValue fuel ⟨s, p⟩) := by
  obtain ⟨fuel, rfl⟩ := Nat.exists_eq_add_one_of_ne_zero (Nat.ne_zero_of_lt hfuel)
  exact h fuel p (Nat.le_of_lt_succ hfuel)

theorem IsRefused.items (h : IsRefused .items s) (hfuel : 2 * s.length + 1 < fuel) (p : Nat) :
    Fails (readItems fuel ⟨s, p⟩) := by
  obtain ⟨fuel, rfl⟩ := Nat.exists_eq_add_one_of_ne_zero (Nat.ne_zero_of_lt hfuel)
  exact h fuel p (Nat.le_of_lt_succ hfuel)

theorem IsRefused.members (h : IsRefused .members s) (hfuel : 2 * s.length + 1 < fuel)
    (before : List (String × Json)) (p : Nat) : Fails (readMembers fuel before ⟨s, p⟩) := by
  obtain ⟨fuel, rfl⟩ := Nat.exists_eq_add_one_of_ne_zero (Nat.ne_zero_of_lt hfuel)
  exact h fuel before p (Nat.le_of_lt_succ hfuel)

theorem Overlong.isRefused {place : Place} (h : Overlong place s) : IsRefused place s := by
  induction h with
  | number hn hlong hstops =>
    intro fuel p _
    rw [readValue_number hn hstops, if_pos hlong]
    exact ⟨_, rfl, _, rfl⟩
  | array hgap hitems ih =>
    intro fuel p hfuel
    obtain ⟨p', hread⟩ := readOpened_follow ']' (by decide) hgap hitems.begins (p + 1)
    have hlength := hgap.length_le
    simp only [List.length_cons] at hfuel
    rw [readValue_array, hread]
    exact (ih.items (by omega) p').bind _
  | object hgap hmembers ih =>
    intro fuel p hfuel
    obtain ⟨p', hread⟩ := readOpened_follow '\x7d' (by decide) hgap hmembers.begins (p + 1)
    have hlength := hgap.length_le
    simp only [List.length_cons] at hfuel
    rw [readValue_object, hread]
    exact (ih.members (by omega) [] p').bind _
  | firstItem _ ih =>
    intro fuel p hfuel
    rw [readItems_succ]
    exact (ih.value (by omega) p).bind _
  | laterItem hv hcomma hrest ih =>
    intro fuel p hfuel
    have hlength := hcomma.length_lt
    have hlength' := hv.length_le
    rw [readItems_succ]
    refine (hv.isRead.value (hcomma.follows (by decide)) (by omega) p).bind_fails fun p => ?_
    obtain ⟨p', hread⟩ := readOn_more ']' (by decide) hcomma hrest.begins.noBlank p
    dsimp only
    rw [hread]
    exact (ih.items (by omega) p').bind _
  | firstMember hkey hv ih =>
    intro fuel before p hfuel
    have hlength := hkey.length_lt
    rw [readMembers_succ]
    refine (hkey.reads hv.begins.noBlank p).bind_fails fun p => ?_
    exact (ih.value (by omega) p).bind _
  | laterMember hkey hv hcomma hrest ih =>
    intro fuel before p hfuel
    have hlength := hcomma.length_lt
    have hlength' := hv.length_le
    have hlength'' := hkey.length_lt
    rw [readMembers_succ]
    refine (hkey.reads hv.begins.noBlank p).bind_fails fun p => ?_
    refine (hv.isRead.value (hcomma.follows (by decide)) (by omega) p).bind_fails fun p => ?_
    obtain ⟨p', hread⟩ := readOn_more '\x7d' (by decide) hcomma hrest.begins.noBlank p
    dsimp only
    rw [hread]
    exact ih.members (by omega) _ p'

/-! ## Whole texts -/

theorem read_eq (h : s.head? ≠ some (Char.ofNat 0xfeff)) :
    read s = readValue (2 * s.length + 1) (Scan.skipBlanks ⟨s, 0⟩) >>= fun (v, s) =>
      if s.skipBlanks.rest.isEmpty then .ok v else s.skipBlanks.fail .extraData := by
  rw [read, if_neg h]
  rfl

theorem Begins.noMark (hgap : Gap s t) (h : Begins t) : s.head? ≠ some (Char.ofNat 0xfeff) := by
  cases hgap with
  | nil => exact h.head?_ne (by decide)
  | cons hc _ =>
    rintro ⟨rfl⟩
    exact absurd hc (by decide)

theorem IsOverlong.read (h : IsOverlong s) : ∃ e, Json.read s = .error e ∧ e.IsLong := by
  obtain ⟨u, hgap, hv⟩ := h
  obtain ⟨p, hskip⟩ := hgap.skipBlanks hv.begins.noBlank 0
  have hlength := hgap.length_le
  have hfuel : 2 * u.length < 2 * s.length + 1 := by omega
  obtain ⟨e, he, hlong⟩ := hv.isRefused.value hfuel p
  refine ⟨e, ?_, hlong⟩
  rw [read_eq (hv.begins.noMark hgap), hskip, he]
  rfl

theorem IsJson.read {v : Json} (h : IsJson s v) :
    Json.read s = .ok v ∨ ∃ e, Json.read s = .error e ∧ e.IsLong := by
  obtain ⟨u, t, hgap, hv, hend⟩ := h
  obtain ⟨p, hskip⟩ := hgap.skipBlanks hv.begins.noBlank 0
  have hlength := hgap.length_le
  have hfollows : Follows t := hend.follows (by simp [Follows])
  rw [read_eq (hv.begins.noMark hgap), hskip]
  have hfuel : 2 * u.length < 2 * s.length + 1 := by omega
  obtain ⟨p', hread⟩ | ⟨e, he, hlong⟩ := hv.isRead.value hfollows hfuel p
  · obtain ⟨p'', hskip'⟩ := hend.skipBlanks (by simp [NoBlank]) p'
    rw [hread]
    change (if (Scan.skipBlanks ⟨t, p'⟩).rest.isEmpty then _ else _) = _ ∨ _
    rw [hskip']
    exact .inl rfl
  · rw [he]
    exact .inr ⟨e, rfl, hlong⟩

end BlockMarkup.Json
