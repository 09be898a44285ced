import Mathlib.Data.Set.Card
import NominalSubtyping.Proofs.Source.Catalog

/-!
# What a catalog answers

A catalog is filled by *declarations*, one after the other: a type, an edge, or one subtype with
several supertypes, which declares as many edges. Types and edges may be declared again, and edges
may lead in circles. What the catalog answers can be said of the declarations alone. It knows the
names that occur in them, and the hierarchy below a known name is the part of the declared edges
that can be reached from it downwards, each row in the order in which its edges were first declared.
So the hierarchies below two names agree wherever both reach.

## Main definitions

* `Declaration` : the declarations, with the names and the edges in them.
* `Catalog.ofSequence` : the catalog that some declarations lead to.
* `subtypesIn` : the subtypes of a name among some edges.
* `Catalog.Records` : a catalog that holds just some names and some edges.

## Main results

* `Catalog.records_ofSequence` : a catalog records its declarations.
* `Catalog.lookup_declared` : a lookup answers with what was declared.
-/

open Relation (ReflTransGen)

namespace NominalSubtyping

/-- A call that declares something. -/
inductive Declaration where
  /-- A type is declared, without any edge. -/
  | type (name : String)
  /-- A type is declared a direct subtype of another one. -/
  | edge (sub sup : String)
  /-- A type is declared a direct subtype of several other ones. -/
  | edges (sub : String) (sups : List String)
  deriving DecidableEq, Repr

namespace Declaration

/-- The edges that are declared, each a subtype and a supertype. -/
def declared : Declaration → List (String × String)
  | type _ => []
  | edge sub sup => [(sub, sup)]
  | edges sub sups => sups.map fun sup => (sub, sup)

/-- The names that occur in what is declared, the ends of the edges among them. -/
def names : Declaration → List String
  | type name => [name]
  | edge sub sup => [sub, sup]
  | edges sub sups => sups.flatMap fun sup => [sub, sup]

/-- Adds what is declared to a catalog. -/
def perform (catalog : Catalog) : Declaration → Catalog
  | type name => catalog.declareType name
  | edge sub sup => catalog.declare sub sup
  | edges sub sups => catalog.declareAll sub sups

end Declaration

/-- The catalog that some declarations lead to. -/
def Catalog.ofSequence (declarations : List Declaration) : Catalog :=
  declarations.foldl Declaration.perform {}

/-- The subtypes of `sup` among the edges, in the order in which they first occur, each once. -/
def subtypesIn (edges : List (String × String)) (sup : String) : List String :=
  ((edges.filter fun edge => edge.2 = sup).map Prod.fst).eraseDups

variable {edges : List (String × String)} {sub sup name : String}

theorem mem_subtypesIn : sub ∈ subtypesIn edges sup ↔ (sub, sup) ∈ edges := by
  rw [subtypesIn, List.mem_eraseDups, List.mem_map]
  constructor
  · rintro ⟨edge, hedge, rfl⟩
    obtain ⟨hmem, hsup⟩ := List.mem_filter.1 hedge
    rwa [← of_decide_eq_true hsup]
  · exact fun hmem => ⟨(sub, sup), List.mem_filter.2 ⟨hmem, decide_eq_true rfl⟩, rfl⟩

/-- One more edge counts at its supertype, unless it is there already. -/
theorem subtypesIn_concat (edges : List (String × String)) (sub sup row : String) :
    subtypesIn (edges ++ [(sub, sup)]) row =
      if row = sup ∧ sub ∉ subtypesIn edges sup then subtypesIn edges sup ++ [sub]
      else subtypesIn edges row := by
  by_cases hrow : row = sup
  · subst hrow
    have hfilter : [(sub, row)].filter (fun edge => edge.2 = row) = [(sub, row)] :=
      List.filter_cons_of_pos (decide_eq_true rfl)
    rw [subtypesIn, List.filter_append, List.map_append, hfilter, List.eraseDups_append]
    by_cases hsub : sub ∈ subtypesIn edges row
    · rw [if_neg fun h => h.2 hsub]
      simp [List.removeAll, mem_subtypesIn.1 hsub, subtypesIn]
    · rw [if_pos ⟨rfl, hsub⟩]
      simp [List.removeAll, mem_subtypesIn.not.1 hsub, subtypesIn, List.eraseDups_cons]
  · have hfilter : [(sub, sup)].filter (fun edge => edge.2 = row) = [] :=
      List.filter_cons_of_neg (by simpa using Ne.symm hrow)
    rw [if_neg fun h => hrow h.1, subtypesIn, List.filter_append, hfilter,
      List.append_nil, subtypesIn]

/-! ### Tables -/

namespace SubtypeTable

variable {table : SubtypeTable} {row : String}

/-- An edge makes its supertype an entry. -/
theorem mem_entries_add : row ∈ (table.add sup sub).entries ↔ sup = row ∨ row ∈ table.entries := by
  rw [add]
  split
  · rename_i hsub
    refine ⟨Or.inr, fun hrow => ?_⟩
    rcases hrow with rfl | hrow
    · exact mem_entries_of_mem_below hsub
    · exact hrow
  · rw [Std.TreeMap.mem_insert, Std.LawfulEqCmp.compare_eq_iff_eq]

/-- The part of a table below a name has as many rows as there are entries that can be reached. -/
theorem size_restrict (table : SubtypeTable) (name : String) :
    {sup | sup ∈ table.entries ∧ table.Reaches name sup}.encard = (table.restrict name).size := by
  have hkeys : {sup | sup ∈ table.entries ∧ table.Reaches name sup} =
      ((table.restrict name).entries.keys.toFinset : Set String) := by
    ext sup
    rw [Finset.mem_coe, List.mem_toFinset, Std.TreeMap.mem_keys, restrict, Std.TreeMap.mem_filter,
      Set.mem_ofPred_eq]
    constructor
    · rintro ⟨hsup, hreaches⟩
      refine ⟨hsup, decide_eq_true ?_⟩
      rw [Std.TreeMap.getKey_eq]
      exact (mem_supertypesFrom hsup).2 hreaches
    · rintro ⟨hsup, hreached⟩
      have hmem := of_decide_eq_true hreached
      rw [Std.TreeMap.getKey_eq] at hmem
      exact ⟨hsup, (mem_supertypesFrom hsup).1 hmem⟩
  rw [hkeys, Set.encard_coe_eq_coe_finsetCard, List.toFinset_card_of_nodup Std.TreeMap.nodup_keys,
    Std.TreeMap.length_keys, size]

end SubtypeTable

/-! ### Catalogs -/

namespace Catalog

variable {catalog : Catalog} {names : List String}

/-- The catalog holds just these names and these edges. -/
structure Records (catalog : Catalog) (names : List String) (edges : List (String × String)) :
    Prop where
  mem_known : ∀ name, name ∈ catalog.known ↔ name ∈ names
  below_eq : ∀ sup, catalog.table.below sup = subtypesIn edges sup
  mem_entries : ∀ sup, sup ∈ catalog.table.entries ↔ ∃ sub, (sub, sup) ∈ edges

theorem records_empty : Records {} [] [] where
  mem_known name := by simp
  below_eq sup := by
    rw [SubtypeTable.below, Std.TreeMap.getD_emptyc]
    rfl
  mem_entries sup := by simp

namespace Records

theorem declareType (h : catalog.Records names edges) (name : String) :
    (catalog.declareType name).Records (names ++ [name]) edges where
  mem_known other := by
    rw [mem_known_declareType, h.mem_known, List.mem_append, List.mem_singleton]
    grind
  below_eq := h.below_eq
  mem_entries := h.mem_entries

theorem declare (h : catalog.Records names edges) (sub sup : String) :
    (catalog.declare sub sup).Records (names ++ [sub, sup]) (edges ++ [(sub, sup)]) where
  mem_known other := by
    rw [mem_known_declare, h.mem_known]
    grind
  below_eq row := by
    rw [below_declare, subtypesIn_concat, h.below_eq, h.below_eq]
  mem_entries row := by
    refine SubtypeTable.mem_entries_add.trans ((or_congr_right (h.mem_entries row)).trans ?_)
    constructor
    · rintro (rfl | ⟨other, hother⟩)
      · exact ⟨sub, List.mem_append_right _ (List.mem_singleton_self _)⟩
      · exact ⟨other, List.mem_append_left _ hother⟩
    · rintro ⟨other, hother⟩
      rcases List.mem_append.1 hother with hother | hother
      · exact Or.inr ⟨other, hother⟩
      · exact Or.inl (Prod.mk.inj (List.mem_singleton.1 hother)).2.symm

/-- Several edges are recorded one after the other. -/
theorem declareAll (sub : String) (sups : List String) : ∀ {catalog : Catalog} {names : List String}
    {edges : List (String × String)}, catalog.Records names edges →
    (catalog.declareAll sub sups).Records (names ++ sups.flatMap fun sup => [sub, sup])
      (edges ++ sups.map fun sup => (sub, sup)) := by
  induction sups with
  | nil =>
    intro catalog names edges h
    rw [List.flatMap_nil, List.map_nil, List.append_nil, List.append_nil]
    exact h
  | cons sup sups ih =>
    intro catalog names edges h
    have hrest := ih (h.declare sub sup)
    rwa [List.append_assoc, List.append_assoc] at hrest

theorem perform (h : catalog.Records names edges) (declaration : Declaration) :
    (declaration.perform catalog).Records (names ++ declaration.names)
      (edges ++ declaration.declared) := by
  cases declaration with
  | type name =>
    rw [Declaration.declared, List.append_nil]
    exact h.declareType name
  | edge sub sup => exact h.declare sub sup
  | edges sub sups => exact declareAll sub sups h

/-- What every declaration adds, a sequence of declarations adds. -/
theorem performAll (declarations : List Declaration) : ∀ {catalog : Catalog} {names : List String}
    {edges : List (String × String)}, catalog.Records names edges →
    (declarations.foldl Declaration.perform catalog).Records
      (names ++ declarations.flatMap Declaration.names)
      (edges ++ declarations.flatMap Declaration.declared) := by
  induction declarations with
  | nil =>
    intro catalog names edges h
    rwa [List.flatMap_nil, List.flatMap_nil, List.append_nil, List.append_nil]
  | cons declaration declarations ih =>
    intro catalog names edges h
    have hrest := ih (h.perform declaration)
    rwa [List.append_assoc, List.append_assoc] at hrest

/-- The edges of the table lead where the recorded edges lead. -/
theorem reaches_iff (h : catalog.Records names edges) {other : String} :
    catalog.table.Reaches name other ↔
      ReflTransGen (fun sup sub => (sub, sup) ∈ edges) name other := by
  simp only [SubtypeTable.Reaches, h.below_eq, mem_subtypesIn]

end Records

/-- A catalog records its declarations. -/
theorem records_ofSequence (declarations : List Declaration) :
    (ofSequence declarations).Records (declarations.flatMap Declaration.names)
      (declarations.flatMap Declaration.declared) :=
  records_empty.performAll declarations

/-- What is declared builds a catalog. -/
theorem Built.perform (h : catalog.Built) (declaration : Declaration) :
    (declaration.perform catalog).Built := by
  cases declaration with
  | type name => exact h.declareType name
  | edge sub sup => exact h.declare sub sup
  | edges sub sups =>
    exact List.foldlRecOn (motive := Built) sups _ h fun _ hbuilt sup _ => hbuilt.declare sub sup

theorem built_ofSequence (declarations : List Declaration) : (ofSequence declarations).Built :=
  List.foldlRecOn (motive := Built) declarations _ .empty fun _ hbuilt declaration _ =>
    hbuilt.perform declaration

/-- A lookup of a known name finds the hierarchy below it. -/
theorem lookup_eq_some_iff {snapshot : Snapshot} : (catalog.lookup name).1 = some snapshot ↔
    name ∈ catalog.known ∧ snapshot = catalog.hierarchy name := by
  rw [lookup, snapshot?, isKnown]
  by_cases h : name ∈ catalog.known
  · rw [if_pos (decide_eq_true h), Option.some_inj]
    exact ⟨fun heq => ⟨h, heq.symm⟩, fun heq => heq.2.symm⟩
  · rw [if_neg fun hmem => h (of_decide_eq_true hmem)]
    exact ⟨fun heq => (by cases heq), fun heq => absurd heq.1 h⟩

theorem lookup_eq_none_iff : (catalog.lookup name).1 = none ↔ name ∉ catalog.known := by
  rw [lookup, snapshot?, isKnown]
  by_cases h : name ∈ catalog.known
  · rw [if_pos (decide_eq_true h)]
    exact ⟨fun heq => (by cases heq), fun hnot => absurd h hnot⟩
  · rw [if_neg fun hmem => h (of_decide_eq_true hmem)]
    exact ⟨fun _ => h, fun _ => rfl⟩

/-- A lookup answers with what was declared. It finds nothing exactly if the name occurs in no
declaration. Otherwise it finds a hierarchy with the name as its root: names that can be reached
over declared edges have their declared subtypes in it, in the order of their first declarations and
each once, the others have none, and its size is the number of names that can be reached and have a
declared subtype. Two hierarchies agree on every name that can be reached in both. -/
theorem lookup_declared (declarations : List Declaration) :
    let catalog := ofSequence declarations
    let edges := declarations.flatMap Declaration.declared
    let Reachable := ReflTransGen fun sup sub => (sub, sup) ∈ edges
    (∀ name, (catalog.lookup name).1 = none ↔
      ∀ declaration ∈ declarations, name ∉ declaration.names) ∧
    (∀ name snapshot, (catalog.lookup name).1 = some snapshot →
      snapshot.root = name ∧
      (∀ other, Reachable name other → snapshot.directSubtypes other = subtypesIn edges other) ∧
      (∀ other, ¬ Reachable name other → snapshot.directSubtypes other = []) ∧
      {sup | Reachable name sup ∧ ∃ sub, (sub, sup) ∈ edges}.encard = snapshot.size) ∧
    ∀ name name' snapshot snapshot', (catalog.lookup name).1 = some snapshot →
      (catalog.lookup name').1 = some snapshot' →
      ∀ other, Reachable name other → Reachable name' other →
        snapshot.directSubtypes other = snapshot'.directSubtypes other := by
  intro catalog edges Reachable
  have hrecords : catalog.Records (declarations.flatMap Declaration.names) edges :=
    records_ofSequence declarations
  have hbuilt : catalog.Built := built_ofSequence declarations
  have hreached {name other : String} {snapshot : Snapshot}
      (h : (catalog.lookup name).1 = some snapshot) (hother : Reachable name other) :
      snapshot.directSubtypes other = subtypesIn edges other := by
    obtain ⟨-, rfl⟩ := lookup_eq_some_iff.1 h
    rw [hbuilt.directSubtypes_hierarchy,
      SubtypeTable.below_restrict_of_reaches (hrecords.reaches_iff.2 hother), hrecords.below_eq]
  refine ⟨fun name => ?_, fun name snapshot h => ?_, ?_⟩
  · rw [lookup_eq_none_iff, hrecords.mem_known, List.mem_flatMap]
    simp only [not_exists, not_and]
  · obtain ⟨-, rfl⟩ := lookup_eq_some_iff.1 h
    refine ⟨(hbuilt.hierarchy_equiv_restrict name).1, fun other => hreached h,
      fun other hother => ?_, ?_⟩
    · rw [hbuilt.directSubtypes_hierarchy]
      exact SubtypeTable.below_restrict_of_not_reaches fun hr => hother (hrecords.reaches_iff.1 hr)
    · rw [hbuilt.size_hierarchy, ← SubtypeTable.size_restrict]
      simp only [hrecords.mem_entries, hrecords.reaches_iff, and_comm]
      rfl
  · intro name name' snapshot snapshot' h h' other hother hother'
    rw [hreached h hother, hreached h' hother']

/-- Two types that are each below the other, edges that are declared twice, and a type that is
declared beside them. -/
theorem lookup_declared_cycle :
    let declarations : List Declaration :=
      [.edge "B" "A", .edges "C" ["A", "B"], .edge "A" "B", .edge "B" "A", .edge "D" "D"]
    let catalog := ofSequence declarations
    let edges := declarations.flatMap Declaration.declared
    let Reachable := ReflTransGen fun sup sub => (sub, sup) ∈ edges
    (catalog.lookup "E").1 = none ∧
      ∃ snapshot snapshot', (catalog.lookup "A").1 = some snapshot ∧
        (catalog.lookup "B").1 = some snapshot' ∧ Reachable "A" "B" ∧ ¬ Reachable "A" "D" ∧
        snapshot.directSubtypes "B" = ["C", "A"] ∧ snapshot.directSubtypes "D" = [] ∧
        {sup | Reachable "A" sup ∧ ∃ sub, (sub, sup) ∈ edges}.encard = snapshot.size ∧
        snapshot.directSubtypes "B" = snapshot'.directSubtypes "B" := by
  intro declarations catalog edges Reachable
  obtain ⟨hnone, hsome, hagree⟩ := lookup_declared declarations
  have hfirst := lookup_eq_some_iff.2 ⟨(by decide +kernel : "A" ∈ catalog.known), rfl⟩
  have hsecond := lookup_eq_some_iff.2 ⟨(by decide +kernel : "B" ∈ catalog.known), rfl⟩
  have hreaches : Reachable "A" "B" := ReflTransGen.single (by decide +kernel)
  have hself : ∀ edge ∈ edges, edge.1 = "D" → edge.2 = "D" := by decide +kernel
  have hapart : ¬ Reachable "A" "D" := by
    suffices h : ∀ other, Reachable "A" other → other ≠ "D" from fun hreaches => h _ hreaches rfl
    intro other hother
    induction hother with
    | refl => decide
    | tail _ hedge ih => exact fun heq => ih (hself _ hedge heq)
  obtain ⟨-, hbelow, hempty, hsize⟩ := hsome "A" _ hfirst
  exact ⟨(hnone "E").2 (by decide +kernel), _, _, hfirst, hsecond, hreaches, hapart,
    (hbelow "B" hreaches).trans (by decide +kernel), hempty "D" hapart, hsize,
    hagree "A" "B" _ _ hfirst hsecond "B" hreaches ReflTransGen.refl⟩

/-- With no supertypes nothing is declared. -/
example : ((ofSequence [.edges "A" []]).lookup "A").1.isNone = true := by
  decide +kernel

end Catalog

end NominalSubtyping
