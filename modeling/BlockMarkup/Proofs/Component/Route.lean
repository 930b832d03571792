import BlockMarkup.Component.Build
import BlockMarkup.Markup.Document

/-! # Ways to elements

What a document says about its classed elements, without any tree of components: which elements
there are (`Node.routes`, in document order), which first classes one meets on the way to each of
them (`Route.chain`), and which of them lie above the depth limit (`Route.Reached`).

`occurrences` are the reached elements with their chains. The second half of the file says how
lists of occurrences are cut and joined; building and merging follow these cuts.
-/

namespace BlockMarkup

open Markup (Node Document)

/-! ## Documents and elements with classes -/

namespace Text

theorem words_ne_nil {s : String} (h : allBlank s = false) : words s ≠ [] := by
  intro hnil
  have hwords : wordsOf s.toList = [] := List.map_eq_nil_iff.mp hnil
  have hfilter := wordsOf_flatten s.toList
  rw [hwords, List.flatten_nil, eq_comm, List.filter_eq_nil_iff] at hfilter
  have hall : s.toList.all isBlank = true := by
    rw [List.all_eq_true]
    intro ch hch
    simpa using hfilter ch hch
  rw [allBlank, hall] at h
  cases h

end Text

theorem Markup.Node.classTokens_ne_nil {n : Node} (h : n.hasClass = true) :
    n.classTokens ≠ [] :=
  Text.words_ne_nil (by simpa [Node.hasClass] using h)

theorem Markup.Document.mode_of_read (mode : Markup.RootMode) (html : List Char) :
    (Document.read mode html).mode = mode := by
  unfold Document.read
  dsimp only
  split
  · rfl
  · rfl

theorem Markup.Document.hasClass_of_mem_selectionRoots {d : Document} {n : Node}
    (h : n ∈ d.selectionRoots) : n.hasClass = true := by
  rw [Document.selectionRoots] at h
  split at h
  · simp at h
  · exact (List.mem_filter.mp h).2

/-- A tree is built of an element with a class that is not too deep, from what is found below it. -/
theorem Conventions.build_element_eq_some_iff {c : Conventions} {depth : Nat} {name : String}
    {attributes : Markup.Attributes} {children : List Node} {t : Component} :
    c.build depth (.element name attributes children) = some t ↔ depth < maxDepth ∧
      ∃ base modifiers, Text.words ((attributes.lookup "class").getD "") = base :: modifiers ∧
        c.component name attributes base modifiers (c.found (depth + 1) false children) = t := by
  rw [build]
  by_cases hdepth : depth < maxDepth
  · rw [if_neg (Nat.not_le_of_lt hdepth)]
    cases Text.words ((attributes.lookup "class").getD "") with
    | nil => simp
    | cons base modifiers =>
      constructor
      · exact fun h => ⟨hdepth, base, modifiers, rfl, Option.some.inj h⟩
      · rintro ⟨-, _, _, hwords, rfl⟩
        obtain ⟨rfl, rfl⟩ := List.cons.inj hwords
        rfl
  · rw [if_pos (Nat.le_of_not_lt hdepth)]
    simp [hdepth]

/-- The tree of an element is named by the first class of the element, and there is none without. -/
theorem Conventions.map_base_build (c : Conventions) (n : Node) :
    (c.build 0 n).map Component.base = n.classTokens.head? := by
  cases n with
  | leaf kind content => rfl
  | element name attributes children =>
    rw [build, if_neg (by decide)]
    split
    · rename_i hnil
      exact (congrArg List.head? hnil).symm
    · rename_i b rest htokens
      exact (congrArg List.head? htokens).symm

/-- An element with a first class has a tree. -/
theorem Conventions.exists_build_of_classTokens {c : Conventions} {n : Node}
    (h : n.classTokens ≠ []) : ∃ t, c.build 0 n = some t := by
  rcases List.exists_cons_of_ne_nil h with ⟨b, rest, hb⟩
  have hbase := c.map_base_build n
  rw [hb, List.head?_cons] at hbase
  rcases Option.map_eq_some_iff.mp hbase with ⟨t, ht, -⟩
  exact ⟨t, ht⟩

/-- An element with a class has a tree. -/
theorem Conventions.exists_build {c : Conventions} {n : Node} (h : n.hasClass = true) :
    ∃ t, c.build 0 n = some t :=
  exists_build_of_classTokens (Node.classTokens_ne_nil h)

/-! ## Ways -/

/-- An element and the elements around it, the outermost first. -/
structure Route where
  around : List Node
  here : Node

namespace Route

/-- The same way, begun one element further out. -/
def under (n : Node) (r : Route) : Route := ⟨n :: r.around, r.here⟩

/-- The first classes of the classed elements on the way, that of the element itself last. -/
def chain (r : Route) : List String :=
  (r.around ++ [r.here]).filterMap fun n => n.classTokens.head?

/-- The first class of the element. -/
def base (r : Route) : String := r.here.classTokens.headD ""

/-- The element has a class and is not too deep, if the way begins at a given depth. -/
def Reached (depth : Nat) (r : Route) : Prop :=
  r.here.classTokens ≠ [] ∧ depth + r.around.length < Conventions.maxDepth

instance (depth : Nat) (r : Route) : Decidable (r.Reached depth) :=
  inferInstanceAs (Decidable (_ ∧ _))

theorem chain_self (n : Node) : (Route.mk [] n).chain = n.classTokens.head?.toList := by
  simp only [chain, List.nil_append, List.filterMap_cons, List.filterMap_nil]
  cases n.classTokens.head? <;> rfl

theorem reached_self {n : Node} {depth : Nat} :
    (Route.mk [] n).Reached depth ↔ n.classTokens ≠ [] ∧ depth < Conventions.maxDepth := by
  simp only [Reached, List.length_nil, Nat.add_zero]

theorem chain_under (n : Node) (r : Route) :
    (r.under n).chain = n.classTokens.head?.toList ++ r.chain := by
  simp only [chain, under, List.cons_append, List.filterMap_cons]
  cases n.classTokens.head? <;> rfl

theorem reached_under {n : Node} {r : Route} {depth : Nat} :
    (r.under n).Reached depth ↔ r.Reached (depth + 1) := by
  simp only [Reached, under, List.length_cons]
  constructor
  · rintro ⟨h, hlt⟩
    exact ⟨h, by omega⟩
  · rintro ⟨h, hlt⟩
    exact ⟨h, by omega⟩

/-- A chain has no more classes than there are elements on the way. -/
theorem length_chain_le (r : Route) : r.chain.length ≤ r.around.length + 1 := by
  have h := List.length_filterMap_le (fun n : Node => n.classTokens.head?) (r.around ++ [r.here])
  rw [List.length_append, List.length_singleton] at h
  exact h

theorem Reached.length_chain_le {r : Route} {depth : Nat} (h : r.Reached depth) :
    r.chain.length ≤ Conventions.maxDepth - depth := by
  have hlen := r.length_chain_le
  have hlt := h.2
  omega

/-- The chain of a classed element ends with its own first class. -/
theorem chain_eq {r : Route} (h : r.here.classTokens ≠ []) :
    ∃ init, r.chain = init ++ [r.base] := by
  rcases List.exists_cons_of_ne_nil h with ⟨b, rest, hb⟩
  refine ⟨r.around.filterMap fun n => n.classTokens.head?, ?_⟩
  simp [chain, base, hb]

end Route

/-- The node of an element is named by the first class of the element. -/
theorem Conventions.base_of_build {c : Conventions} {depth : Nat} {n : Node} {t : Component}
    (h : c.build depth n = some t) : t.base = (Route.mk [] n).base := by
  cases n with
  | leaf kind s => simp [build] at h
  | element name as ns =>
    obtain ⟨-, b, modifiers, hwords, rfl⟩ := build_element_eq_some_iff.mp h
    exact (congrArg (List.headD · "") hwords).symm

namespace Markup

mutual

/-- The ways to an element itself and to all elements below it, in document order. -/
def Node.routes : Node → List Route
  | .leaf .. => []
  | .element name attributes children =>
    ⟨[], .element name attributes children⟩ ::
      (Node.routesIn children).map (Route.under (.element name attributes children))

/-- The ways to all elements in some trees. -/
def Node.routesIn : List Node → List Route
  | [] => []
  | n :: rest => Node.routes n ++ Node.routesIn rest

end

theorem Node.mem_routesIn {ns : List Node} {r : Route} :
    r ∈ Node.routesIn ns ↔ ∃ n ∈ ns, r ∈ n.routes := by
  induction ns with
  | nil => simp [Node.routesIn]
  | cons n rest ih => simp [Node.routesIn, ih]

mutual

/-- The way to an element is a way to each of the elements around it, if it stops there. -/
theorem Node.mem_routes_of_around {before after : List Node} {e : Node} :
    ∀ (n : Node) (r : Route), r ∈ n.routes → r.around = before ++ e :: after →
      ⟨before, e⟩ ∈ n.routes
  | .leaf .., r => by
    intro h
    simp [Node.routes] at h
  | .element name attributes children, r => by
    intro h haround
    rw [Node.routes, List.mem_cons] at h ⊢
    rcases h with rfl | h
    · simp at haround
    · rcases List.mem_map.mp h with ⟨r, hr, rfl⟩
      rw [Route.under] at haround
      cases before with
      | nil =>
        rcases List.cons.inj haround with ⟨rfl, _⟩
        exact Or.inl rfl
      | cons b before =>
        rcases List.cons.inj haround with ⟨rfl, htail⟩
        have hmem := Node.mem_routesIn_of_around children r hr htail
        exact Or.inr (List.mem_map_of_mem hmem)

theorem Node.mem_routesIn_of_around {before after : List Node} {e : Node} :
    ∀ (ns : List Node) (r : Route), r ∈ Node.routesIn ns → r.around = before ++ e :: after →
      ⟨before, e⟩ ∈ Node.routesIn ns
  | [], r => by
    intro h
    simp [Node.routesIn] at h
  | n :: rest, r => by
    intro h haround
    rw [Node.routesIn, List.mem_append] at h ⊢
    rcases h with h | h
    · exact Or.inl (Node.mem_routes_of_around n r h haround)
    · exact Or.inr (Node.mem_routesIn_of_around rest r h haround)

end

end Markup

namespace Route

variable {r : Route} {before after : List Node} {e : Node}

/-- Above a classed element its chain is shorter. -/
theorem chain_before (haround : r.around = before ++ e :: after) (h : r.here.classTokens ≠ []) :
    (Route.mk before e).chain <+: r.chain ∧ (Route.mk before e).chain ≠ r.chain := by
  have hchain : r.chain = (Route.mk before e).chain ++
      ((after ++ [r.here]).filterMap fun n => n.classTokens.head?) := by
    simp only [chain, haround, ← List.filterMap_append, List.append_assoc, List.cons_append,
      List.nil_append]
  have hne : ((after ++ [r.here]).filterMap fun n => n.classTokens.head?) ≠ [] := by
    rcases List.exists_cons_of_ne_nil h with ⟨b, rest, hb⟩
    simp [hb]
  refine ⟨⟨_, hchain.symm⟩, fun he => hne ?_⟩
  rw [← he] at hchain
  exact List.append_cancel_left ((List.append_nil _).trans hchain).symm

/-- An element with a class around an element that is reached is reached too. -/
theorem Reached.of_around {depth : Nat} (h : r.Reached depth)
    (haround : r.around = before ++ e :: after) (he : e.classTokens ≠ []) :
    (Route.mk before e).Reached depth := by
  refine ⟨he, ?_⟩
  have hlt := h.2
  rw [haround, List.length_append, List.length_cons] at hlt
  dsimp only
  omega

end Route

/-! ## Occurrences -/

/-- Elements with their chains. -/
abbrev Occurrences := List (List String × Node)

/-- The reached elements among those that some ways lead to. -/
def occurrences (depth : Nat) (rs : List Route) : Occurrences :=
  (rs.filter (·.Reached depth)).map fun r => (r.chain, r.here)

theorem occurrences_cons (depth : Nat) (r : Route) (rs : List Route) :
    occurrences depth (r :: rs) =
      if r.Reached depth then (r.chain, r.here) :: occurrences depth rs
      else occurrences depth rs := by
  by_cases hr : r.Reached depth <;> simp [occurrences, hr]

theorem occurrences_append (depth : Nat) (rs rs' : List Route) :
    occurrences depth (rs ++ rs') = occurrences depth rs ++ occurrences depth rs' := by
  simp [occurrences]

theorem mem_occurrences {depth : Nat} {rs : List Route} {p : List String × Node} :
    p ∈ occurrences depth rs ↔ ∃ r ∈ rs, r.Reached depth ∧ (r.chain, r.here) = p := by
  simp [occurrences, and_assoc]

theorem occurrences_under (n : Node) (depth : Nat) (rs : List Route) :
    occurrences depth (rs.map (Route.under n)) =
      (occurrences (depth + 1) rs).map fun p => (n.classTokens.head?.toList ++ p.1, p.2) := by
  induction rs with
  | nil => rfl
  | cons r rest ih =>
    rw [List.map_cons, occurrences_cons, occurrences_cons, ih, Route.chain_under]
    by_cases hr : r.Reached (depth + 1)
    · rw [if_pos hr, if_pos (Route.reached_under.mpr hr)]
      rfl
    · rw [if_neg hr, if_neg (fun h => hr (Route.reached_under.mp h))]

theorem occurrences_of_maxDepth_le {depth : Nat} (h : Conventions.maxDepth ≤ depth)
    (rs : List Route) : occurrences depth rs = [] := by
  refine List.eq_nil_iff_forall_not_mem.mpr fun p hp => ?_
  rcases mem_occurrences.mp hp with ⟨r, _, hr, _⟩
  have := hr.2
  omega

namespace Occurrences

/-- The same elements, seen from one class further out. -/
def prefixed (b : String) (os : Occurrences) : Occurrences :=
  os.map fun p => (b :: p.1, p.2)

/-- The elements whose chain is empty. -/
def here (os : Occurrences) : List Node :=
  (os.filter (·.1 = [])).map Prod.snd

/-- The classes that are whole chains. -/
def heads (os : Occurrences) : List String :=
  os.filterMap fun p =>
    match p.1 with
    | [b] => some b
    | _ => none

/-- The elements whose chain begins with a class, seen from that class. -/
def inside (b : String) (os : Occurrences) : Occurrences :=
  os.filterMap fun p =>
    match p.1 with
    | h :: rest => if h = b then some (rest, p.2) else none
    | [] => none

/-- The elements whose chain begins with several classes, seen from the last of them. -/
def insideAll : List String → Occurrences → Occurrences
  | [], os => os
  | b :: rest, os => insideAll rest (inside b os)

/-- No chain stands without its first class. -/
def Closed (os : Occurrences) : Prop :=
  ∀ b rest e, (b :: rest, e) ∈ os → b ∈ heads os

theorem mem_here {os : Occurrences} {e : Node} : e ∈ here os ↔ ([], e) ∈ os := by
  simp [here]

theorem mem_inside {os : Occurrences} {b : String} {chain : List String} {e : Node} :
    (chain, e) ∈ inside b os ↔ (b :: chain, e) ∈ os := by
  simp only [inside, List.mem_filterMap]
  constructor
  · rintro ⟨⟨c, e'⟩, hp, h⟩
    cases c with
    | nil => cases h
    | cons h' rest =>
      by_cases he : h' = b
      · simp only [he, if_true, Option.some.injEq, Prod.mk.injEq] at h
        rcases h with ⟨rfl, rfl⟩
        exact he ▸ hp
      · simp [he] at h
  · intro hp
    exact ⟨(b :: chain, e), hp, by simp⟩

theorem mem_insideAll {os : Occurrences} {chain rest : List String} {e : Node} :
    (rest, e) ∈ insideAll chain os ↔ (chain ++ rest, e) ∈ os := by
  induction chain generalizing os with
  | nil => rfl
  | cons b chain ih =>
    rw [insideAll, ih, mem_inside]
    rfl

@[simp] theorem here_append (os os' : Occurrences) : here (os ++ os') = here os ++ here os' := by
  simp [here]

@[simp] theorem heads_append (os os' : Occurrences) :
    heads (os ++ os') = heads os ++ heads os' := by
  simp [heads, List.filterMap_append]

@[simp] theorem inside_append (b : String) (os os' : Occurrences) :
    inside b (os ++ os') = inside b os ++ inside b os' := by
  simp [inside, List.filterMap_append]

@[simp] theorem here_prefixed (b : String) (os : Occurrences) : here (prefixed b os) = [] := by
  refine List.eq_nil_iff_forall_not_mem.mpr fun e he => ?_
  rcases List.mem_map.mp (mem_here.mp he) with ⟨p, _, hp⟩
  simp at hp

theorem inside_prefixed (b b' : String) (os : Occurrences) :
    inside b (prefixed b' os) = if b' = b then os else [] := by
  induction os with
  | nil => simp [inside, prefixed]
  | cons p rest ih =>
    by_cases hb : b' = b
    · simp only [inside, prefixed, hb, if_true] at ih ⊢
      simp [ih]
    · simp only [inside, prefixed, hb, if_false] at ih ⊢
      simp [hb]

theorem heads_prefixed (b : String) (os : Occurrences) :
    heads (prefixed b os) = (here os).map fun _ => b := by
  induction os with
  | nil => rfl
  | cons p rest ih =>
    simp only [heads, prefixed, here] at ih
    rcases p with ⟨chain, e⟩
    cases chain with
    | nil => simpa [heads, prefixed, here] using ih
    | cons => simpa [heads, prefixed, here] using ih

/-- The classes that come next after a chain. -/
theorem heads_insideAll (chain : List String) (os : Occurrences) :
    heads (insideAll chain os) =
      os.filterMap fun p => if p.1.dropLast = chain then p.1.getLast? else none := by
  induction chain generalizing os with
  | nil =>
    rw [insideAll, heads]
    congr 1
    funext ⟨chain, _⟩
    rcases chain with _ | ⟨h, _ | ⟨h', rest⟩⟩ <;> simp
  | cons b chain ih =>
    rw [insideAll, ih, inside, List.filterMap_filterMap]
    congr 1
    funext ⟨chain', _⟩
    rcases chain' with _ | ⟨h, _ | ⟨h', rest⟩⟩
    · simp
    · by_cases hb : h = b <;> simp [hb]
    · by_cases hb : h = b <;> simp [hb]

theorem Closed.append {os os' : Occurrences} (h : Closed os) (h' : Closed os') :
    Closed (os ++ os') := by
  intro b rest e hmem
  rw [heads_append, List.mem_append]
  rcases List.mem_append.mp hmem with hmem | hmem
  · exact Or.inl (h b rest e hmem)
  · exact Or.inr (h' b rest e hmem)

/-- A class that is no chain begins none. -/
theorem Closed.inside_eq_nil {os : Occurrences} (h : Closed os) {b : String}
    (hb : b ∉ heads os) : inside b os = [] := by
  refine List.eq_nil_iff_forall_not_mem.mpr fun p hp => ?_
  exact hb (h b p.1 p.2 (mem_inside.mp hp))

theorem closed_prefixed {os : Occurrences} (b : String) (h : here os ≠ []) :
    Closed (prefixed b os) := by
  intro b' rest e hmem
  rcases List.mem_map.mp hmem with ⟨p, _, hp⟩
  rcases List.exists_mem_of_ne_nil _ h with ⟨e', he'⟩
  obtain ⟨rfl, _⟩ : b = b' ∧ p.1 = rest := by
    have := congrArg Prod.fst hp
    simpa using this
  rw [heads_prefixed, List.mem_map]
  exact ⟨e', he', rfl⟩

end Occurrences

end BlockMarkup
