import NominalSubtyping.Proofs.TypeUse.Brackets
import NominalSubtyping.TypeUse.Applied

/-!
# Canonical texts

The canonical text of an applied type is read back as that type, provided that the parts of the type
can be told apart in the text: its base has no `<`, and its arguments balance, have no top-level
comma and no blanks around them. A single empty argument cannot be written, since brackets around
nothing are brackets around no argument.

Every applied type that is read from a text is of this kind. So reading a text and writing it down
again gives a text that stays the same when this is repeated, and two texts are read as the same
type exactly if they have the same canonical text.

## Main definitions

* `AppliedType.Writable` : applied types that can be written.

## Main results

* `AppliedType.parse_render` : a type that can be written is read back from its canonical text.
* `AppliedType.writable_of_parse` : a type that is read can be written.
* `AppliedType.render_canonical` : reading undoes writing, and writing is canonical.
-/

namespace NominalSubtyping

open Text (Nested Balanced topCommas isBlank trim)

/-! ### Blanks around a text -/

namespace Text

variable {before text after : List Char} (hbefore : ∀ c ∈ before, isBlank c = true)
  (hafter : ∀ c ∈ after, isBlank c = true)

include hbefore hafter in
/-- Blanks around a text hide no bracket. -/
theorem Balanced.of_pad (h : Balanced (before ++ text ++ after)) : Balanced text := by
  have hopen := count_of_blank '<' rfl hbefore
  have hclose := count_of_blank '>' rfl hbefore
  refine ⟨fun first hfirst => ?_, ?_⟩
  · obtain ⟨rest, rfl⟩ := hfirst
    have hle := h.nested (before ++ first) ⟨rest ++ after, by simp⟩
    rwa [List.count_append, List.count_append, hopen, hclose, Nat.zero_add, Nat.zero_add] at hle
  · have heq := h.count_eq
    simpa only [List.count_append, hopen, hclose, count_of_blank '<' rfl hafter,
      count_of_blank '>' rfl hafter, Nat.zero_add, Nat.add_zero] using heq

include hbefore in
/-- Nor do they hide a comma. -/
theorem topCommas_of_pad (h : topCommas (before ++ text ++ after) = 0) : topCommas text = 0 := by
  rw [topCommas_eq_zero_iff] at h ⊢
  rintro first rest rfl heq
  refine h (before ++ first) (rest ++ after) (by simp) ?_
  rw [List.count_append, List.count_append, count_of_blank '<' rfl hbefore,
    count_of_blank '>' rfl hbefore, heq]

/-- What is left of a text without the blanks around it balances if the text does. -/
theorem Balanced.trim (h : Balanced text) : Balanced (trim text) := by
  obtain ⟨before, after, hbefore, hafter, htext⟩ := exists_pad_trim text
  rw [htext] at h
  exact h.of_pad hbefore hafter

theorem topCommas_trim (h : topCommas text = 0) : topCommas (Text.trim text) = 0 := by
  obtain ⟨before, after, hbefore, -, htext⟩ := exists_pad_trim text
  rw [htext] at h
  exact topCommas_of_pad hbefore h

end Text

/-! ### Applied types -/

namespace TypeUse

/-- The base of a type use ends in front of the first `<`. -/
theorem open_notMem_base {text : String} {use : TypeUse} (h : parse text = .ok use) :
    '<' ∉ use.base.toList := by
  rw [parse] at h
  split at h
  · rename_i hall
    obtain rfl := Except.ok.inj h
    exact fun hmem => of_decide_eq_true (List.dropWhile_eq_nil_iff.1 hall _ hmem) rfl
  · split at h
    · obtain rfl := Except.ok.inj h
      rw [String.toList_ofList]
      intro hmem
      have hother := List.mem_takeWhile_imp hmem
      exact of_decide_eq_true hother rfl
    · cases h

end TypeUse

namespace AppliedType

variable {text : String} {type : AppliedType}

/-- The parts of the type can be told apart in its text: the base has no `<`, the arguments balance
and have neither top-level commas nor blanks around them, and they are not one empty argument. -/
structure Writable (type : AppliedType) : Prop where
  open_notMem : '<' ∉ type.base.toList
  ne_empty : type.arguments ≠ [""]
  whole : ∀ argument ∈ type.arguments, trim argument.toList = argument.toList ∧
    Balanced argument.toList ∧ topCommas argument.toList = 0

/-- A text is read as an applied type exactly if it is read as a type use whose arguments are
found. -/
theorem parse_eq_ok_iff : parse text = .ok type ↔
    ∃ use, TypeUse.parse text = .ok use ∧ use.base = type.base ∧
      use.arguments = .ok type.arguments := by
  rw [parse]
  cases TypeUse.parse text with
  | error error => exact ⟨fun h => (by cases h), fun ⟨_, h, _⟩ => (by cases h)⟩
  | ok use =>
    simp only [bind, Except.bind]
    cases harguments : use.arguments with
    | error error =>
      refine ⟨fun h => (by cases h), fun ⟨_, h, _, h'⟩ => ?_⟩
      obtain rfl := Except.ok.inj h
      rw [harguments] at h'
      cases h'
    | ok arguments =>
      constructor
      · intro h
        obtain rfl := Except.ok.inj h
        exact ⟨use, rfl, rfl, harguments⟩
      · rintro ⟨use', h, hbase, h'⟩
        obtain rfl := Except.ok.inj h
        obtain rfl := Except.ok.inj (harguments.symm.trans h')
        rw [hbase]
        rfl

/-- The canonical text is the base with the arguments in brackets. -/
theorem render_eq (type : AppliedType) : type.render =
    String.ofList (TypeUse.written type.base.toList (type.arguments.map String.toList)) := by
  rw [← String.toList_inj, String.toList_ofList, render, TypeUse.written]
  cases type.arguments with
  | nil => rfl
  | cons argument arguments =>
    simp [String.toList_intercalate]

/-- The text between the brackets of a type that can be written is not blank. -/
theorem Writable.not_blank (h : type.Writable) (hne : type.arguments ≠ []) :
    ([','].intercalate (type.arguments.map String.toList)).all isBlank = false := by
  rw [← Bool.not_eq_true]
  intro hblank
  match harguments : type.arguments with
  | [] => exact hne harguments
  | [argument] =>
    -- A blank argument without blanks around it is empty.
    rw [harguments, List.map_cons, List.map_nil, List.intercalate_singleton] at hblank
    have hwhole := h.whole argument (by rw [harguments]; exact List.mem_singleton_self _)
    rw [Text.trim_eq_nil_iff.2 hblank] at hwhole
    refine h.ne_empty ?_
    rw [harguments, String.toList_eq_nil_iff.1 hwhole.1.symm]
  | first :: second :: rest =>
    rw [harguments, List.map_cons, List.map_cons, List.intercalate_cons_cons] at hblank
    have hcomma : isBlank ',' = true := List.all_eq_true.1 hblank ',' (by simp)
    cases hcomma

/-- The arguments of a type that can be written are found between the commas. -/
theorem Writable.splitArguments_eq (h : type.Writable) :
    splitArguments (String.ofList ([','].intercalate (type.arguments.map String.toList))) =
      .ok type.arguments := by
  by_cases hnone : type.arguments = []
  · rw [hnone]
    rfl
  · have hsolid : ∀ text ∈ type.arguments.map String.toList, Arguments.Solid 0 text := by
      intro text htext
      obtain ⟨argument, hargument, rfl⟩ := List.mem_map.1 htext
      obtain ⟨-, hbalanced, hcommas⟩ := h.whole argument hargument
      exact .of_balanced hbalanced hcommas
    have hne : type.arguments.map String.toList ≠ [] :=
      fun hmap => hnone (List.map_eq_nil_iff.1 hmap)
    have hsame : ∀ argument ∈ type.arguments,
        ((fun text => String.ofList (trim text)) ∘ String.toList) argument = id argument := by
      intro argument hargument
      rw [Function.comp_apply, (h.whole argument hargument).1, String.ofList_toList, id]
    rw [TypeUse.splitArguments_of_solid hne hsolid (h.not_blank hnone), List.map_map,
      List.map_congr_left hsame, List.map_id]

/-- A type that can be written is read back from its canonical text. -/
theorem parse_render (h : type.Writable) : parse type.render = .ok type := by
  have hread := TypeUse.parse_written h.open_notMem (type.arguments.map String.toList)
  rw [← render_eq, String.ofList_toList] at hread
  exact parse_eq_ok_iff.2 ⟨_, hread, rfl, h.splitArguments_eq⟩

/-- The arguments that a text is split into can be written. -/
theorem writable_arguments {arguments : List String} (h : splitArguments text = .ok arguments) :
    arguments ≠ [""] ∧ ∀ argument ∈ arguments, trim argument.toList = argument.toList ∧
      Balanced argument.toList ∧ topCommas argument.toList = 0 := by
  obtain ⟨segments, hdivides, hsplit⟩ :=
    splitArguments_of_balanced (splitArguments_ok_iff.1 ⟨arguments, h⟩)
  obtain rfl := Except.ok.inj (h.symm.trans hsplit)
  split
  · exact ⟨(List.cons_ne_nil _ _).symm, fun argument hargument => absurd hargument List.not_mem_nil⟩
  · rename_i hblank
    refine ⟨fun hempty => hblank ?_, fun argument hargument => ?_⟩
    · -- A single segment is the whole text, so that it would be blank.
      obtain ⟨segment, rfl, hsegment⟩ := List.map_eq_singleton_iff.1 hempty
      rw [← hdivides.joined, List.intercalate_singleton]
      exact Text.trim_eq_nil_iff.1 (String.ofList_eq_empty_iff.1 hsegment)
    · obtain ⟨segment, hsegment, rfl⟩ := List.mem_map.1 hargument
      obtain ⟨hbalanced, hcommas⟩ := hdivides.whole segment hsegment
      rw [String.toList_ofList]
      exact ⟨Text.trim_trim segment, hbalanced.trim, Text.topCommas_trim hcommas⟩

/-- A type that is read from a text can be written. -/
theorem writable_of_parse (h : parse text = .ok type) : type.Writable := by
  obtain ⟨use, hread, hbase, harguments⟩ := parse_eq_ok_iff.1 h
  obtain ⟨hne, hwhole⟩ := writable_arguments harguments
  exact ⟨hbase ▸ TypeUse.open_notMem_base hread, hne, hwhole⟩

/-- A type that is read from a text is read again from its canonical text, so that a text that was
read and written is read and written as itself, and two types that were read are the same exactly if
their canonical texts are. And every type that can be written is read from its canonical text. -/
theorem render_canonical :
    (∀ text type, parse text = .ok type → parse type.render = .ok type) ∧
    (∀ text rendered, (parse text).map render = .ok rendered →
      (parse rendered).map render = .ok rendered) ∧
    (∀ text text' type type', parse text = .ok type → parse text' = .ok type' →
      (type = type' ↔ type.render = type'.render)) ∧
    ∀ type : AppliedType, type.Writable → parse type.render = .ok type := by
  have hagain {text : String} {type : AppliedType} (h : parse text = .ok type) :
      parse type.render = .ok type :=
    parse_render (writable_of_parse h)
  refine ⟨fun text type h => hagain h, fun text rendered h => ?_, ?_, fun type h => parse_render h⟩
  · cases hread : parse text with
    | error error =>
      rw [hread] at h
      cases h
    | ok type =>
      rw [hread] at h
      obtain rfl := Except.ok.inj h
      rw [hagain hread]
      rfl
  · intro text text' type type' h h'
    refine ⟨fun hsame => congrArg render hsame, fun hsame => ?_⟩
    have htype := hagain h
    rw [hsame, hagain h'] at htype
    exact (Except.ok.inj htype).symm

/-- A type with blanks around its arguments and text after its last bracket, and one with a `>` in
its base and an empty argument. -/
theorem render_canonical_spellings :
    let type : AppliedType := ⟨"Map", ["K", "List<V, W>"]⟩
    let other : AppliedType := ⟨"a>b", ["", "A<B,C>"]⟩
    parse "Map< K ,List<V, W> >x" = .ok type ∧ parse "a>b< ,A<B,C>>" = .ok other ∧
      (parse "Map< K ,List<V, W> >x").map render = .ok "Map<K,List<V, W>>" ∧
      parse type.render = .ok type ∧
      (parse "Map<K,List<V, W>>").map render = .ok "Map<K,List<V, W>>" ∧
      (type = other ↔ type.render = other.render) ∧
      other.Writable ∧ parse other.render = .ok other := by
  intro type other
  have hfirst : parse "Map< K ,List<V, W> >x" = .ok type := by decide +kernel
  have hsecond : parse "a>b< ,A<B,C>>" = .ok other := by decide +kernel
  have hrendered : (parse "Map< K ,List<V, W> >x").map render = .ok "Map<K,List<V, W>>" := by
    decide +kernel
  have hother : other.Writable := ⟨by decide +kernel, by decide +kernel, by decide +kernel⟩
  obtain ⟨hagain, hstable, hsame, hwritten⟩ := render_canonical
  exact ⟨hfirst, hsecond, hrendered, hagain _ _ hfirst, hstable _ _ hrendered,
    hsame _ _ _ _ hfirst hsecond, hother, hwritten other hother⟩

/-- A single empty argument is lost, since it is written like no argument at all. -/
example : parse (render ⟨"P", [""]⟩) = .ok ⟨"P", []⟩ := by
  decide +kernel

end AppliedType

end NominalSubtyping
