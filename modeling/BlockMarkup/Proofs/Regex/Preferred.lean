import BlockMarkup.Proofs.Regex.Groups

/-! # What a pattern prefers

A pattern tries its ways in order, so to know its match it is enough to follow the ways that it
prefers: `Prefers step s u` says that from `s` the step succeeds by way of `u` whenever it can go on
from there, and `Refuses step s` that it has no way at all. `Eats` is the same for a pattern and the
characters that it consumes first; there is a lemma about it for every kind of pattern. `matchAt_eq`,
`findFrom_eq` and `Rewrites.replaceAll` say what follows for matches and replacement.
-/

namespace BlockMarkup.Regex

variable {a b r : Regex} {s u v : Cursor} {set : CharSet}
variable {before rest cs : List Char} {groups : List (Nat × Capture)}

/-- Whenever the step can go on from `u`, that is how it succeeds. -/
def Prefers (step : Step) (s u : Cursor) : Prop := ∀ k t, k u = some t → step s k = some t

/-- The step fails, however it might go on. -/
def Refuses (step : Step) (s : Cursor) : Prop := ∀ k, step s k = none

/-- The cursor between two parts of a text. -/
def Cursor.spot (before after : List Char) (groups : List (Nat × Capture)) : Cursor :=
  ⟨before, after, before.length, groups⟩

/-- Some characters and what comes behind them, as a group that has matched the characters. -/
def Capture.of (cs rest : List Char) : Capture := ⟨cs ++ rest, cs.length⟩

@[simp] theorem Capture.text_of : (Capture.of cs rest).text = cs := by
  simp [Capture.of, Capture.text]

namespace Cursor

theorem advance_spot (cs before rest : List Char) (groups : List (Nat × Capture)) :
    (spot before (cs ++ rest) groups).advance cs.length =
      spot (cs.reverse ++ before) rest groups := by
  induction cs generalizing before with
  | nil => rfl
  | cons c cs ih =>
    have hstep : (spot before ((c :: cs) ++ rest) groups).advance (c :: cs).length =
        (spot (c :: before) (cs ++ rest) groups).advance cs.length := rfl
    rw [hstep, ih, List.reverse_cons, List.append_assoc]
    rfl

theorem textTo_spot (cs before rest : List Char) (groups groups' : List (Nat × Capture)) :
    (spot before (cs ++ rest) groups).textTo (spot (cs.reverse ++ before) rest groups') = cs := by
  rw [textTo, spot, spot]
  dsimp only
  rw [List.length_append, List.length_reverse, Nat.add_sub_cancel, List.take_left]

theorem record_spot {groups' : List (Nat × Capture)} {i : Nat} :
    (spot before (cs ++ rest) groups).record (spot (cs.reverse ++ before) rest groups') i =
      spot (cs.reverse ++ before) rest
        ((i, Capture.of cs rest) :: groups'.filter (·.1 != i)) := by
  have hlength : (cs.reverse ++ before).length - before.length = cs.length := by
    rw [List.length_append, List.length_reverse, Nat.add_sub_cancel]
  rw [record, spot, spot]
  dsimp only
  rw [hlength]
  rfl

end Cursor

open Cursor (spot)

/-! ## Sets -/

namespace CharSet

variable {c : Char}

theorem contains_ofList (cs : List Char) : (ofList cs).contains c = cs.contains c := by
  have hone : ∀ d : Char, (decide (d.toNat ≤ c.toNat) && decide (c.toNat ≤ d.toNat)) = (c == d) := by
    intro d
    have hsingle := contains_single d c
    simpa [single, contains, CaseRule.variants, SetItem.covers] using hsingle
  induction cs with
  | nil => rfl
  | cons d cs ih =>
    have hsplit : (ofList (d :: cs)).contains c = ((c == d) || (ofList cs).contains c) := by
      simp [ofList, contains, CaseRule.variants, SetItem.covers, hone]
    rw [hsplit, ih, List.contains_cons]

theorem contains_blank : (ofKind .blank).contains c = Text.isBlank c := by
  simp [ofKind, contains, SetItem.covers, CharKind.holds]

theorem contains_blank_or (cs : List Char) :
    ((ofKind .blank).or (ofList cs)).contains c = (Text.isBlank c || cs.contains c) := by
  rw [← contains_blank, ← contains_ofList]
  simp [or, contains, ofKind, ofList, CaseRule.variants]

end CharSet

/-! ## Ways on -/

theorem Prefers.seq (ha : Prefers (run a) s u) (hb : Prefers (run b) u v) :
    Prefers (run (.seq a b)) s v :=
  fun _ _ hk => ha _ _ (hb _ _ hk)

theorem Prefers.alt_left (h : Prefers (run a) s u) : Prefers (run (.alt a b)) s u := by
  intro k t hk
  rw [run_alt, h k t hk]
  rfl

theorem Prefers.alt_right (ha : Refuses (run a) s) (hb : Prefers (run b) s u) :
    Prefers (run (.alt a b)) s u := by
  intro k t hk
  rw [run_alt, ha k]
  exact hb k t hk

/-- Between two parts of a text, the pattern prefers to consume the given characters first. -/
def Eats (r : Regex) (cs before rest : List Char) (groups groups' : List (Nat × Capture)) : Prop :=
  Prefers (run r) (spot before (cs ++ rest) groups) (spot (cs.reverse ++ before) rest groups')

section Eats

variable {cs' : List Char} {groups' groups'' : List (Nat × Capture)}

theorem eats_empty : Eats .empty [] before rest groups groups := fun _ _ hk => hk

theorem eats_one {c : Char} (h : set.contains c = true) :
    Eats (.one set) [c] before rest groups groups := by
  intro k t hk
  have hstep : run (.one set) (spot before ([c] ++ rest) groups) k =
      if set.contains c then k (spot (c :: before) rest groups) else none := rfl
  rw [hstep, if_pos h]
  exact hk

theorem Eats.seq (ha : Eats a cs before (cs' ++ rest) groups groups')
    (hb : Eats b cs' (cs.reverse ++ before) rest groups' groups'') :
    Eats (.seq a b) (cs ++ cs') before rest groups groups'' := by
  rw [Eats, List.append_assoc, List.reverse_append, List.append_assoc]
  exact Prefers.seq ha hb

/-- What comes second consumes nothing. -/
theorem Eats.seq_nil (ha : Eats a cs before rest groups groups')
    (hb : Eats b [] (cs.reverse ++ before) rest groups' groups'') :
    Eats (.seq a b) (cs ++ []) before rest groups groups'' :=
  Eats.seq ha hb

theorem Eats.alt_left (h : Eats a cs before rest groups groups') :
    Eats (.alt a b) cs before rest groups groups' :=
  Prefers.alt_left h

theorem Eats.alt_right (ha : Refuses (run a) (spot before (cs ++ rest) groups))
    (hb : Eats b cs before rest groups groups') : Eats (.alt a b) cs before rest groups groups' :=
  Prefers.alt_right ha hb

theorem Eats.group {i : Nat} (h : Eats r cs before rest groups groups') :
    Eats (.group i r) cs before rest groups
      ((i, Capture.of cs rest) :: groups'.filter (·.1 != i)) := by
  intro k t hk
  have hstep : run (.group i r) (spot before (cs ++ rest) groups) k =
      run r (spot before (cs ++ rest) groups)
        fun u => k ((spot before (cs ++ rest) groups).record u i) := rfl
  rw [hstep]
  refine h _ _ ?_
  rw [Cursor.record_spot]
  exact hk

theorem Eats.assoc {c : Regex} (h : Eats (.seq a (.seq b c)) cs before rest groups groups') :
    Eats (.seq (.seq a b) c) cs before rest groups groups' :=
  fun k t hk => h k t hk

/-- A part that may be absent is there if the whole can go on with it. -/
theorem Eats.opt_seq (h : Eats (.seq a b) cs before rest groups groups') :
    Eats (.seq (.opt a) b) cs before rest groups groups' := by
  intro k t hk
  have halt : run (.seq (.opt a) b) (spot before (cs ++ rest) groups) k =
      (run (.seq a b) (spot before (cs ++ rest) groups) k).or
        (run (.seq .empty b) (spot before (cs ++ rest) groups) k) :=
    run_alt
  rw [halt, h k t hk]
  rfl

/-- A run of a set goes to its end. -/
theorem exists_stops {most : Option Nat} (hset : ∀ c ∈ cs, set.contains c = true)
    (hmost : most.all (cs.length ≤ ·) = true)
    (hrest : ∀ c, rest.head? = some c → set.contains c = false) (before : List Char)
    (groups : List (Nat × Capture)) (pos : Nat) :
    ∃ init, init.length = cs.length ∧ stops set most before (cs ++ rest) pos groups =
      init ++ [⟨cs.reverse ++ before, rest, pos + cs.length, groups⟩] := by
  induction cs generalizing before most pos with
  | nil =>
    refine ⟨[], rfl, ?_⟩
    cases rest with
    | nil => rfl
    | cons c rest =>
      have hc := hrest c rfl
      rw [List.nil_append, stops, hc, Bool.and_false]
      rfl
  | cons c cs ih =>
    rw [List.forall_mem_cons] at hset
    have hgoes : (most != some 0) = true := by
      cases most with
      | none => rfl
      | some m =>
        simp only [Option.all_some, List.length_cons, decide_eq_true_eq] at hmost
        simp only [bne_iff_ne, ne_eq, Option.some.injEq]
        omega
    have hless : (most.map (· - 1)).all (cs.length ≤ ·) = true := by
      cases most with
      | none => rfl
      | some m =>
        simp only [Option.all_some, List.length_cons, decide_eq_true_eq] at hmost
        simp only [Option.map_some, Option.all_some, decide_eq_true_eq]
        omega
    obtain ⟨init, hinit, hstops⟩ := ih hset.2 hless (c :: before) (pos + 1)
    refine ⟨⟨before, c :: (cs ++ rest), pos, groups⟩ :: init, by simp [hinit], ?_⟩
    have hpos : pos + 1 + cs.length = pos + (c :: cs).length := by
      rw [List.length_cons]
      omega
    rw [List.cons_append, stops, hgoes, hset.1, Bool.and_self, if_pos rfl, hstops, hpos,
      List.reverse_cons, List.append_assoc]
    rfl

theorem eats_span {least : Nat} {most : Option Nat} (hset : ∀ c ∈ cs, set.contains c = true)
    (hleast : least ≤ cs.length) (hmost : most.all (cs.length ≤ ·) = true)
    (hrest : ∀ c, rest.head? = some c → set.contains c = false) :
    Eats (.span set least most .greedy) cs before rest groups groups := by
  intro k t hk
  obtain ⟨init, hinit, hstops⟩ := exists_stops hset hmost hrest before groups before.length
  have hspot : spot (cs.reverse ++ before) rest groups =
      ⟨cs.reverse ++ before, rest, before.length + cs.length, groups⟩ := by
    rw [spot, List.length_append, List.length_reverse, Nat.add_comm]
  have hstart : spanStops set least most .greedy (spot before (cs ++ rest) groups) =
      ((init ++ [spot (cs.reverse ++ before) rest groups]).drop least).reverse := by
    rw [hspot, ← hstops]
    rfl
  rw [run_span, hstart, List.drop_append_of_le_length (by omega), List.reverse_append,
    List.reverse_singleton, List.singleton_append, List.findSome?_cons, hk]

theorem eats_many (hset : ∀ c ∈ cs, set.contains c = true)
    (hrest : ∀ c, rest.head? = some c → set.contains c = false) :
    Eats (.many set) cs before rest groups groups :=
  eats_span hset (Nat.zero_le _) rfl hrest

theorem eats_many_nil (hrest : ∀ c, rest.head? = some c → set.contains c = false) :
    Eats (.many set) [] before rest groups groups :=
  eats_many (by simp) hrest

/-- A run that is as short as possible goes up to the first place where the rest can go on. -/
theorem run_few {k : Cursor → Option Cursor} {t : Cursor} (hset : ∀ c ∈ cs, set.contains c = true)
    (hno : ∀ x c y, cs = x ++ c :: y →
      k (spot (x.reverse ++ before) (c :: (y ++ rest)) groups) = none)
    (hk : k (spot (cs.reverse ++ before) rest groups) = some t) :
    run (.few set) (spot before (cs ++ rest) groups) k = some t := by
  have hrun : run (.few set) (spot before (cs ++ rest) groups) k =
      (stops set none before (cs ++ rest) before.length groups).findSome? k := rfl
  rw [hrun]
  clear hrun
  induction cs generalizing before with
  | nil =>
    have hhere : k ⟨before, rest, before.length, groups⟩ = some t := hk
    cases rest with
    | nil => rw [List.nil_append, stops, List.findSome?_cons, hhere]
    | cons c rest => rw [List.nil_append, stops, List.findSome?_cons, hhere]
  | cons c cs ih =>
    rw [List.forall_mem_cons] at hset
    have hhere : k ⟨before, c :: (cs ++ rest), before.length, groups⟩ = none := hno [] c cs rfl
    rw [List.cons_append, stops, List.findSome?_cons, hhere, hset.1]
    refine ih hset.2 (fun x d y heq => ?_) (by simpa using hk)
    have hnone := hno (c :: x) d y (by rw [heq]; rfl)
    rwa [List.reverse_cons, List.append_assoc] at hnone

theorem eats_few {d : Char} (hset : ∀ c ∈ cs, set.contains c = true) (hd : d ∉ cs) :
    Eats (.seq (.few set) (.one (.single d))) (cs ++ [d]) before rest groups groups := by
  intro k t hk
  rw [List.append_assoc]
  refine run_few (k := fun u => run (.one (.single d)) u k) hset (fun x c y heq => ?_) ?_
  · rw [run_one_cons rfl, if_neg]
    rw [CharSet.contains_single, beq_iff_eq]
    rintro rfl
    exact hd (by simp [heq])
  · rw [run_one_cons rfl, if_pos (by rw [CharSet.contains_single, beq_self_eq_true])]
    rw [List.reverse_append, List.append_assoc] at hk
    exact hk

/-- A run as short as possible, and its group, up to the first place where the rest can go on. -/
theorem eats_group_few {b : Regex} {i : Nat} (hset : ∀ c ∈ cs, set.contains c = true)
    (hno : ∀ x c y groups, cs = x ++ c :: y →
      Refuses (run b) (spot (x.reverse ++ before) (c :: (y ++ (cs' ++ rest))) groups))
    (hb : Eats b cs' (cs.reverse ++ before) rest
      ((i, Capture.of cs (cs' ++ rest)) :: groups.filter (·.1 != i)) groups') :
    Eats (.seq (.group i (.few set)) b) (cs ++ cs') before rest groups groups' := by
  intro k t hk
  rw [List.append_assoc]
  refine run_few (k := fun u => run b ((spot before (cs ++ (cs' ++ rest)) groups).record u i) k) hset
    (fun x c y heq => ?_) ?_
  · have hrecord : (spot before (x ++ c :: (y ++ (cs' ++ rest))) groups).record
        (spot (x.reverse ++ before) (c :: (y ++ (cs' ++ rest))) groups) i =
          spot (x.reverse ++ before) (c :: (y ++ (cs' ++ rest)))
            ((i, Capture.of x (c :: (y ++ (cs' ++ rest)))) :: groups.filter (·.1 != i)) :=
      Cursor.record_spot
    have hwhole : x ++ c :: (y ++ (cs' ++ rest)) = cs ++ (cs' ++ rest) := by
      rw [heq]
      simp
    rw [hwhole] at hrecord
    rw [hrecord]
    exact hno x c y _ heq k
  · rw [Cursor.record_spot]
    refine hb k t ?_
    rw [List.reverse_append, List.append_assoc] at hk
    exact hk

theorem eats_chars : ∀ (cs before : List Char), Eats (chars cs) cs before rest groups groups
  | [], _ => eats_empty
  | [_], _ => eats_one (by simp [CharSet.contains_single])
  | c :: d :: cs, before => by
    have hfirst : Eats (.one (.single c)) [c] before ((d :: cs) ++ rest) groups groups :=
      eats_one (by simp [CharSet.contains_single])
    exact hfirst.seq (eats_chars (d :: cs) (c :: before))

theorem eats_text {t : String} : Eats (.text t) t.toList before rest groups groups :=
  eats_chars t.toList before

end Eats

/-! ## No way on -/

theorem refuses_one (h : ∀ c, s.after.head? = some c → set.contains c = false) :
    Refuses (run (.one set)) s := by
  intro k
  rcases hafter : s.after with _ | ⟨c, rest⟩
  · exact run_one_nil hafter
  · rw [run_one_cons hafter, h c (by rw [hafter]; rfl)]
    rfl

theorem Refuses.seq (h : Refuses (run a) s) : Refuses (run (.seq a b)) s := fun _ => h _

/-- A pattern refuses if whatever its first part hands on is refused by the second. -/
theorem refuses_seq_of_yields {R : Cursor → Cursor → Prop} (ha : Yields (run a) R)
    (hb : ∀ u, R s u → Refuses (run b) u) : Refuses (run (.seq a b)) s := by
  intro k
  cases hrun : run (.seq a b) s k with
  | none => rfl
  | some t =>
    rcases ha _ _ _ hrun with ⟨u, hu, ht⟩
    rw [hb u hu k] at ht
    cases ht

theorem Refuses.alt (ha : Refuses (run a) s) (hb : Refuses (run b) s) :
    Refuses (run (.alt a b)) s := by
  intro k
  rw [run_alt, ha k]
  exact hb k

theorem Refuses.group {i : Nat} (h : Refuses (run r) s) : Refuses (run (.group i r)) s :=
  fun _ => h _

/-- A pattern refuses where what it would consume is not there. -/
theorem refuses_of_yields {R : Cursor → Cursor → Prop} (h : Yields (run r) R)
    (hnone : ∀ u, ¬ R s u) : Refuses (run r) s := by
  intro k
  cases hrun : run r s k with
  | none => rfl
  | some t =>
    rcases h _ _ _ hrun with ⟨u, hu, _⟩
    exact absurd hu (hnone u)

theorem yields_chars : ∀ cs : List Char, Yields (run (chars cs)) fun s u => s.after = cs ++ u.after
  | [] => yields_empty.weaken fun _ _ hu => congrArg Cursor.after hu.symm
  | [c] => yields_single c
  | c :: d :: cs => by
    refine ((yields_single c).seq (yields_chars (d :: cs))).weaken ?_
    rintro s u ⟨v, hfirst, hrest⟩
    rw [hfirst, hrest]
    rfl

theorem yields_text {t : String} : Yields (run (.text t)) fun s u =>
    s.after = t.toList ++ u.after :=
  yields_chars t.toList

/-- Any characters, up to the first place where a given text stands. -/
theorem eats_anyText_text {t : String} {groups : List (Nat × Capture)}
    (hno : ∀ x c y, cs = x ++ c :: y → ¬ t.toList <+: c :: (y ++ (t.toList ++ rest))) :
    Eats (.seq .anyText (.text t)) (cs ++ t.toList) before rest groups groups := by
  intro k u hk
  rw [List.append_assoc]
  refine run_few (k := fun w => run (.text t) w k) (fun _ _ => rfl) (fun x c y heq => ?_) ?_
  · exact refuses_of_yields yields_text (fun w hw => hno x c y heq ⟨w.after, hw.symm⟩) k
  · rw [List.reverse_append, List.append_assoc] at hk
    exact eats_text k u hk

/-! ## Anchors -/

theorem prefers_anchor {a : Anchor} (h : anchorHolds a s = true) :
    Prefers (run (.anchor a)) s s := by
  intro k t hk
  rw [run_anchor, if_pos h]
  exact hk

/-! ## Looks -/

theorem prefers_look {behind : Option Nat} (h : seen behind r s = some u)
    (hgroups : u.groups = s.groups) : Prefers (run (.look behind false r)) s s := by
  intro k t hk
  rw [run_look, h, Option.bind_some, hgroups]
  exact hk

theorem prefers_look_negated {behind : Option Nat} (h : seen behind r s = none) :
    Prefers (run (.look behind true r)) s s := by
  intro k t hk
  rw [run_look_negated, if_pos h]
  exact hk

theorem refuses_look_negated {behind : Option Nat} (h : seen behind r s = some u) :
    Refuses (run (.look behind true r)) s := by
  intro k
  rw [run_look_negated, if_neg (by rw [h]; simp)]

/-- A look back at one character. -/
theorem seen_behind {c : Char} (h : set.contains c = true) :
    seen (some 1) (.one set) (spot (c :: before) rest groups) =
      some (spot (c :: before) rest groups) := by
  have heats : Eats (.one set) [c] before rest groups groups := eats_one h
  exact heats some _ rfl

theorem seen_behind_none (h : ∀ c, before.head? = some c → set.contains c = false) :
    seen (some 1) (.one set) (spot before rest groups) = none := by
  cases before with
  | nil => rfl
  | cons c before =>
    have hone : Refuses (run (.one set)) (spot before (c :: rest) groups) := by
      refine refuses_one fun d hd => ?_
      cases hd
      exact h c rfl
    exact hone some

/-! ## Repetitions -/

/-- Rounds of a step that lead on and on until it refuses. -/
inductive Rounds (step : Step) : Cursor → Cursor → Prop where
  | done {s : Cursor} : Refuses step s → Rounds step s s
  | round {s u v : Cursor} : Prefers step s u → s.pos < u.pos → Rounds step u v → Rounds step s v

theorem Rounds.pos_le {step : Step} (h : Rounds step s v) : s.pos ≤ v.pos := by
  induction h with
  | done => exact Nat.le_refl _
  | round _ hlt _ ih => omega

theorem Rounds.prefers {step : Step} (h : Rounds step s v) (fuel count : Nat) {last : Option Nat}
    (hfuel : v.pos - s.pos ≤ fuel) (hlast : last ≠ some s.pos) :
    Prefers (iterateGreedy step 0 none fuel count last) s v := by
  induction h generalizing fuel count last with
  | @done s hstep =>
    intro k t hk
    cases fuel with
    | zero => exact hk
    | succ fuel =>
      rw [iterateGreedy, if_neg (Nat.not_lt_zero _), hstep]
      split
      · exact hk
      · exact hk
  | @round s u v hstep hlt hrounds ih =>
    intro k t hk
    have hle := hrounds.pos_le
    cases fuel with
    | zero => omega
    | succ fuel =>
      have hgoes : ((none : Option Nat).all (count < ·) && last != some s.pos) = true := by
        simpa using hlast
      have hnext : (some s.pos : Option Nat) ≠ some u.pos := by
        rw [ne_eq, Option.some.injEq]
        omega
      have hrest := ih fuel (count + 1) (by omega) hnext k t hk
      rw [iterateGreedy, if_neg (Nat.not_lt_zero _), if_pos hgoes, hstep _ _ hrest]

/-- One round that consumes something, and the rounds after it. -/
theorem Eats.round {groups' : List (Nat × Capture)} (h : Eats r cs before rest groups groups')
    (hcs : cs ≠ []) (hrounds : Rounds (run r) (spot (cs.reverse ++ before) rest groups') v) :
    Rounds (run r) (spot before (cs ++ rest) groups) v := by
  have hlength := List.length_pos_iff.mpr hcs
  refine .round h ?_ hrounds
  simp only [spot, List.length_append, List.length_reverse]
  omega

theorem Eats.rounds {cs' : List Char} {groups' groups'' : List (Nat × Capture)}
    (h : Eats r cs before (cs' ++ rest) groups groups') (hcs : cs ≠ [])
    (hrounds : Rounds (run r) (spot (cs.reverse ++ before) (cs' ++ rest) groups')
      (spot (cs'.reverse ++ (cs.reverse ++ before)) rest groups'')) :
    Rounds (run r) (spot before ((cs ++ cs') ++ rest) groups)
      (spot ((cs ++ cs').reverse ++ before) rest groups'') := by
  rw [List.append_assoc, List.reverse_append, List.append_assoc]
  exact h.round hcs hrounds

theorem Rounds.eats_loop {groups' : List (Nat × Capture)}
    (h : Rounds (run r) (spot before (cs ++ rest) groups)
      (spot (cs.reverse ++ before) rest groups')) :
    Eats (.loop r 0 none .greedy) cs before rest groups groups' := by
  intro k t hk
  refine h.prefers _ _ ?_ (by simp) k t hk
  simp only [spot, List.length_append, List.length_reverse]
  omega

/-! ## Matches -/

theorem matchAt_eq (h : Prefers (run r) { s with groups := [] } u) :
    matchAt r s = some ⟨s, u⟩ := by
  rw [matchAt, h some u rfl]
  rfl

theorem matchAt_eq_none (h : Refuses (run r) { s with groups := [] }) : matchAt r s = none := by
  rw [matchAt, h some]
  rfl

theorem Eats.matchAt {groups' : List (Nat × Capture)} (h : Eats r cs before rest [] groups')
    (groups : List (Nat × Capture)) :
    matchAt r (spot before (cs ++ rest) groups) =
      some ⟨spot before (cs ++ rest) groups, spot (cs.reverse ++ before) rest groups'⟩ :=
  matchAt_eq h

theorem Match.group_eq {m : Match} {i : Nat} (h : m.stop.groups.lookup i = some (.of cs rest)) :
    m.group i = cs := by
  rw [Match.group, Cursor.group?, h, Option.map_some, Capture.text_of]
  rfl

/-- The pattern matches nowhere from the beginning of some characters to their end. -/
def Silent (r : Regex) (before cs rest : List Char) : Prop :=
  ∀ p c q, cs = p ++ c :: q → run r (spot (p.reverse ++ before) (c :: (q ++ rest)) []) some = none

theorem silent_nil : Silent r before [] rest := by
  intro p c q h
  simp at h

theorem Silent.head {c : Char} (h : Silent r before (c :: cs) rest) :
    run r (spot before (c :: (cs ++ rest)) []) some = none :=
  h [] c cs rfl

theorem Silent.tail {c : Char} (h : Silent r before (c :: cs) rest) :
    Silent r (c :: before) cs rest := by
  intro p d q hcs
  have hnone := h (c :: p) d q (by rw [hcs]; rfl)
  rwa [List.reverse_cons, List.append_assoc] at hnone

theorem Silent.cons {c : Char} (h : run r (spot before (c :: (cs ++ rest)) []) some = none)
    (h' : Silent r (c :: before) cs rest) : Silent r before (c :: cs) rest := by
  intro p d q hcs
  cases p with
  | nil =>
    cases hcs
    exact h
  | cons e p =>
    cases hcs
    rw [List.reverse_cons, List.append_assoc]
    exact h' p d q rfl

theorem Silent.append {cs' : List Char} (h : Silent r before cs (cs' ++ rest))
    (h' : Silent r (cs.reverse ++ before) cs' rest) : Silent r before (cs ++ cs') rest := by
  induction cs generalizing before with
  | nil => exact h'
  | cons c cs ih =>
    rw [List.reverse_cons, List.append_assoc] at h'
    have hhead := h.head
    rw [← List.append_assoc] at hhead
    exact Silent.cons hhead (ih h.tail h')

theorem findFrom_eq (hsilent : Silent r before cs rest)
    (hmatch : run r (spot (cs.reverse ++ before) rest []) some = some u) :
    findFrom r false before (cs ++ rest) before.length =
      some ⟨spot (cs.reverse ++ before) rest [], u⟩ := by
  induction cs generalizing before with
  | nil =>
    have hhere : run r (spot before rest [])
        (fun t => if false && t.pos == before.length then none else some t) = some u := hmatch
    cases rest with
    | nil =>
      rw [List.nil_append, findFrom]
      exact congrArg (Option.map (Match.mk (spot before [] []))) hhere
    | cons c rest =>
      rw [List.nil_append, findFrom]
      have hmatched : run r ⟨before, c :: rest, before.length, []⟩
          (fun t => if false && t.pos == before.length then none else some t) = some u := hhere
      rw [hmatched]
      rfl
  | cons c cs ih =>
    have hnone : run r ⟨before, c :: (cs ++ rest), before.length, []⟩
        (fun t => if false && t.pos == before.length then none else some t) = none := hsilent.head
    rw [List.reverse_cons, List.append_assoc] at hmatch ⊢
    rw [List.cons_append, findFrom, hnone]
    exact ih hsilent.tail hmatch

theorem findFrom_eq_none (hsilent : Silent r before cs [])
    (hend : run r (spot (cs.reverse ++ before) [] []) some = none) :
    findFrom r false before cs before.length = none := by
  induction cs generalizing before with
  | nil =>
    have hhere : run r ⟨before, [], before.length, []⟩
        (fun t => if false && t.pos == before.length then none else some t) = none := hend
    rw [findFrom, hhere]
    rfl
  | cons c cs ih =>
    have hnone : run r ⟨before, c :: cs, before.length, []⟩
        (fun t => if false && t.pos == before.length then none else some t) = none := by
      have hhead := hsilent.head
      rwa [List.append_nil] at hhead
    rw [List.reverse_cons, List.append_assoc] at hend
    rw [findFrom, hnone]
    exact ih hsilent.tail hend

/-! ## Replacement -/

/-- The text with every match of the pattern replaced, one position after the other. -/
inductive Rewrites (r : Regex) (f : Match → List Char) :
    List Char → List Char → List Char → Prop where
  | nil {before : List Char} : run r (spot before [] []) some = none → Rewrites r f before [] []
  | skip {before rest out : List Char} {c : Char} : run r (spot before (c :: rest) []) some = none →
      Rewrites r f (c :: before) rest out → Rewrites r f before (c :: rest) (c :: out)
  | hit {before cs rest out : List Char} {groups : List (Nat × Capture)} : cs ≠ [] →
      run r (spot before (cs ++ rest) []) some = some (spot (cs.reverse ++ before) rest groups) →
      Rewrites r f (cs.reverse ++ before) rest out →
      Rewrites r f before (cs ++ rest)
        (f ⟨spot before (cs ++ rest) [], spot (cs.reverse ++ before) rest groups⟩ ++ out)

/-- Where the pattern matches nowhere the characters stay. -/
theorem Rewrites.skips {f : Match → List Char} {out : List Char} (hsilent : Silent r before cs rest)
    (h : Rewrites r f (cs.reverse ++ before) rest out) :
    Rewrites r f before (cs ++ rest) (cs ++ out) := by
  induction cs generalizing before with
  | nil => exact h
  | cons c cs ih =>
    rw [List.reverse_cons, List.append_assoc] at h
    exact .skip hsilent.head (ih hsilent.tail h)

/-- Either the pattern matches no more, or there is a first match. -/
theorem Rewrites.first {f : Match → List Char} {s out : List Char}
    (h : Rewrites r f before s out) :
    (findFrom r false before s before.length = none ∧ out = s) ∨
      ∃ x cs rest groups out', s = x ++ (cs ++ rest) ∧ cs ≠ [] ∧
        findFrom r false before s before.length =
          some ⟨spot (x.reverse ++ before) (cs ++ rest) [],
            spot (cs.reverse ++ (x.reverse ++ before)) rest groups⟩ ∧
        out = x ++ (f ⟨spot (x.reverse ++ before) (cs ++ rest) [],
          spot (cs.reverse ++ (x.reverse ++ before)) rest groups⟩ ++ out') ∧
        Rewrites r f (cs.reverse ++ (x.reverse ++ before)) rest out' := by
  induction h with
  | nil hnone => exact Or.inl ⟨findFrom_eq_none silent_nil hnone, rfl⟩
  | @skip before rest out c hnone hrest ih =>
    have hnone' : run r ⟨before, c :: rest, before.length, []⟩
        (fun t => if false && t.pos == before.length then none else some t) = none := hnone
    have hfind : findFrom r false before (c :: rest) before.length =
        findFrom r false (c :: before) rest (c :: before).length := by
      rw [findFrom, hnone']
      rfl
    rcases ih with ⟨hfound, rfl⟩ | ⟨x, cs, rest', groups, out', rfl, hcs, hfound, rfl, hmore⟩
    · exact Or.inl ⟨hfind.trans hfound, rfl⟩
    · refine Or.inr ⟨c :: x, cs, rest', groups, out', rfl, hcs, ?_, ?_, ?_⟩
      · rw [hfind, hfound, List.reverse_cons, List.append_assoc]
        rfl
      · rw [List.reverse_cons, List.append_assoc]
        rfl
      · rw [List.reverse_cons, List.append_assoc]
        exact hmore
  | @hit before cs rest out groups hcs hmatch hrest ih =>
    exact Or.inr ⟨[], cs, rest, groups, out, rfl, hcs, findFrom_eq silent_nil hmatch, rfl, hrest⟩

theorem Rewrites.flatMap_piecesFrom {f : Match → List Char} {s out : List Char}
    (h : Rewrites r f before s out) (fuel : Nat) (hfuel : s.length < fuel)
    (groups : List (Nat × Capture)) :
    ((piecesFrom r fuel false (spot before s groups)).flatMap fun
      | .plain t => t
      | .hit m => f m) = out := by
  induction fuel generalizing before s out groups with
  | zero => omega
  | succ fuel ih =>
    have hspot : findFrom r false (spot before s groups).before (spot before s groups).after
        (spot before s groups).pos = findFrom r false before s before.length := rfl
    rw [piecesFrom, hspot]
    rcases h.first with ⟨hfound, rfl⟩ | ⟨x, cs, rest, groups', out', rfl, hcs, hfound, rfl, hmore⟩
    · rw [hfound]
      simp [spot]
    · -- the match has consumed something, so that the next one may be empty
      have hpos : ((spot (cs.reverse ++ (x.reverse ++ before)) rest groups').pos ==
          (spot (x.reverse ++ before) (cs ++ rest) []).pos) = false := by
        have hlength := List.length_pos_iff.mpr hcs
        simp only [spot, List.length_append, List.length_reverse, beq_eq_false_iff_ne, ne_eq]
        omega
      have hfuel' : rest.length < fuel := by
        have hlength := List.length_pos_iff.mpr hcs
        simp only [List.length_append] at hfuel
        omega
      rw [hfound]
      dsimp only
      rw [hpos, List.flatMap_cons, List.flatMap_cons, ih hmore hfuel' groups',
        Cursor.textTo_spot]

/-- Replacing goes from one position to the next. -/
theorem Rewrites.replaceAll {f : Match → List Char} {s out : List Char}
    (h : Rewrites r f [] s out) : replaceAll r f s = out :=
  h.flatMap_piecesFrom (2 * s.length + 2) (by omega) []

/-- Behind characters where nothing matches, a text is replaced for itself. -/
theorem replaceAll_append_of_rewrites {f : Match → List Char} {t out : List Char}
    (hsilent : Silent r [] cs t) (h : Rewrites r f cs.reverse t out) :
    replaceAll r f (cs ++ t) = cs ++ out :=
  (Rewrites.skips hsilent (by rwa [List.append_nil])).replaceAll

/-- Where the pattern matches nowhere, nothing is replaced. -/
theorem replaceAll_eq_self {f : Match → List Char} {s : List Char} (hsilent : Silent r [] s [])
    (hend : run r (spot s.reverse [] []) some = none) : replaceAll r f s = s := by
  have hnil : Rewrites r f (s.reverse ++ []) [] [] := .nil (by rwa [List.append_nil])
  have hskips := Rewrites.skips hsilent hnil
  simp only [List.append_nil] at hskips
  exact hskips.replaceAll

theorem find?_eq_none {s : List Char} (hsilent : Silent r [] s [])
    (hend : run r (spot s.reverse [] []) some = none) : find? r s = none :=
  findFrom_eq_none hsilent (by rwa [List.append_nil])

theorem matchesIn_eq_false {s : List Char} (hsilent : Silent r [] s [])
    (hend : run r (spot s.reverse [] []) some = none) : matchesIn r s = false := by
  rw [matchesIn, find?_eq_none hsilent hend]
  rfl

/-- Nor is the first match replaced then. -/
theorem replaceFirst_eq_self {f : Match → List Char} {s : List Char} (hsilent : Silent r [] s [])
    (hend : run r (spot s.reverse [] []) some = none) : replaceFirst r f s = s := by
  rw [replaceFirst, find?_eq_none hsilent hend]

/-- A pattern that matches in a text matches at some place in it. -/
theorem exists_run_of_matchesIn {s : List Char} (h : matchesIn r s = true) :
    ∃ p q, s = p ++ q ∧ ∃ t, run r (spot p.reverse q []) some = some t := by
  by_contra hnone
  have hrun : ∀ p q, s = p ++ q → run r (spot p.reverse q []) some = none := by
    intro p q hs
    cases hrun : run r (spot p.reverse q []) some with
    | none => rfl
    | some t => exact absurd ⟨p, q, hs, t, hrun⟩ hnone
  have hsilent : Silent r [] s [] := by
    intro p c q hs
    rw [List.append_nil, List.append_nil]
    exact hrun p (c :: q) hs
  have hfalse := matchesIn_eq_false hsilent (hrun s [] (List.append_nil s).symm)
  rw [h] at hfalse
  cases hfalse

end BlockMarkup.Regex
