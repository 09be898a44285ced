import NominalSubtyping.Proofs.Query.Trees
import NominalSubtyping.Proofs.TypeUse.Canonical

/-!
# The spelling of a question

A question is about types, but it is put in texts, and one type can be written in many ways. Three
things are read off a text before its arguments are compared: whether it is a special type, which is
seen from the whole text, whether it is raw, which is seen from the text between its brackets, and
the arguments themselves, without the blanks around them. Two texts that agree in all three are
*alike*, and no question tells them apart.

The canonical text of a type is alike to every text that is read as the type, unless the type has no
arguments and the text has brackets nevertheless. Brackets around nothing are enough to hide a
special type, and brackets around blanks let a type pass as generic although no argument is found in
it. Such texts are told from the canonical one by some question.

## Main definitions

* `TypeUse.reading` : what a question reads off a type use.
* `Ideal.Alike` : two texts that are the same to every question.
* `AppliedType.Plain` : the text shows the type as its canonical text does.

## Main results

* `Ideal.answer_alike` : ideal answers about texts that are alike.
* `Ideal.plain_iff` : the plain texts are those that no question tells from the canonical text.
-/

namespace NominalSubtyping

/-- What a question reads off a type use: its base, whether it is generic, and its arguments. -/
def TypeUse.reading (use : TypeUse) : String × Bool × Except BracketError (List String) :=
  (use.base, use.isGeneric, use.arguments)

namespace Ideal

variable {config : Config} {below : (sub sup : String) → Prop}
  {left left' right right' text text' : String}

/-! ### Texts that are alike -/

/-- The two texts are the same to every question: they are the same special type or none, and they
are refused alike or read alike. -/
structure Alike (config : Config) (text text' : String) : Prop where
  isRoot_eq : config.isRoot text = config.isRoot text'
  isVoid_eq : config.isVoid text = config.isVoid text'
  reading_eq : (TypeUse.parse text).map TypeUse.reading = (TypeUse.parse text').map TypeUse.reading

theorem Alike.refl (config : Config) (text : String) : Alike config text text :=
  ⟨rfl, rfl, rfl⟩

/-- Texts that are alike are refused with one error, or read as type uses with one reading. -/
theorem Alike.parse_cases (h : Alike config text text') :
    (∃ error, TypeUse.parse text = .error error ∧ TypeUse.parse text' = .error error) ∨
    ∃ use use', TypeUse.parse text = .ok use ∧ TypeUse.parse text' = .ok use' ∧
      use.reading = use'.reading := by
  have hsame := h.reading_eq
  cases hread : TypeUse.parse text with
  | error error =>
    cases hread' : TypeUse.parse text' with
    | error error' =>
      rw [hread, hread'] at hsame
      obtain rfl := Except.error.inj hsame
      exact Or.inl ⟨error, rfl, rfl⟩
    | ok use' =>
      rw [hread, hread'] at hsame
      cases hsame
  | ok use =>
    cases hread' : TypeUse.parse text' with
    | error error' =>
      rw [hread, hread'] at hsame
      cases hsame
    | ok use' =>
      rw [hread, hread'] at hsame
      exact Or.inr ⟨use, use', rfl, rfl, Except.ok.inj hsame⟩

theorem verdict?_alike (hleft : Alike config left left') (hright : Alike config right right')
    (relation : Relation) :
    config.verdict? relation left right = config.verdict? relation left' right' := by
  cases relation with
  | subtype =>
    rw [Config.verdict?, Config.verdict?, hright.isRoot_eq, hleft.isVoid_eq, hright.isVoid_eq]
  | common =>
    rw [Config.verdict?, Config.verdict?, hleft.isRoot_eq, hright.isRoot_eq, hleft.isVoid_eq,
      hright.isVoid_eq]

theorem rawVerdict?_congr {left left' right right' : TypeUse}
    (hleft : left.isGeneric = left'.isGeneric) (hright : right.isGeneric = right'.isGeneric)
    (relation : Relation) :
    rawVerdict? relation left right = rawVerdict? relation left' right' := by
  cases relation with
  | subtype => rw [rawVerdict?, rawVerdict?, hleft, hright]
  | common => rw [rawVerdict?, rawVerdict?, hleft, hright]

theorem compareArguments_congr {left left' right right' : TypeUse}
    (hleft : left.arguments = left'.arguments) (hright : right.arguments = right'.arguments)
    (descend : List (String × String) → Answer) :
    compareArguments descend left right = compareArguments descend left' right' := by
  rw [compareArguments, compareArguments, Engine.readBoth, Engine.readBoth, hleft, hright]

/-- One level of a question about texts that are alike. -/
theorem answerWith_alike (hleft : Alike config left left') (hright : Alike config right right')
    (descend : Relation → List (String × String) → Answer) (relation : Relation) :
    answerWith config below descend relation left right =
      answerWith config below descend relation left' right' := by
  rw [answerWith, answerWith, verdict?_alike hleft hright]
  cases config.verdict? relation left' right' with
  | some verdict => rfl
  | none =>
    obtain ⟨error, hread, hread'⟩ | ⟨use, use', hread, hread', hsame⟩ := hleft.parse_cases
    · rw [Engine.readBoth, Engine.readBoth, hread, hread']
      rfl
    obtain ⟨error, hother, hother'⟩ | ⟨other, other', hother, hother', hsame'⟩ := hright.parse_cases
    · rw [Engine.readBoth, Engine.readBoth, hread, hread', hother, hother']
      rfl
    obtain ⟨hbase, hraw, harguments⟩ : use.base = use'.base ∧ use.isGeneric = use'.isGeneric ∧
        use.arguments = use'.arguments := by simpa [TypeUse.reading] using hsame
    obtain ⟨hbase', hraw', harguments'⟩ : other.base = other'.base ∧
        other.isGeneric = other'.isGeneric ∧ other.arguments = other'.arguments := by
      simpa [TypeUse.reading] using hsame'
    rw [Engine.readBoth_eq_ok_iff.2 ⟨hread, hother⟩, Engine.readBoth_eq_ok_iff.2 ⟨hread', hother'⟩]
    dsimp only
    rw [hbase, hbase', rawVerdict?_congr hraw hraw', compareArguments_congr harguments harguments']

/-- Every ideal answer is given by one level, whatever is done about the arguments. -/
theorem exists_answer_eq (config : Config) (below : (sub sup : String) → Prop) (room : Nat) :
    ∃ descend, answer config below room = answerWith config below descend := by
  cases room with
  | zero => exact ⟨_, rfl⟩
  | succ room => exact ⟨_, rfl⟩

/-- No question tells texts apart that are alike. -/
theorem answer_alike (hleft : Alike config left left') (hright : Alike config right right')
    (room : Nat) (relation : Relation) :
    answer config below room relation left right =
      answer config below room relation left' right' := by
  obtain ⟨descend, hanswer⟩ := exists_answer_eq config below room
  rw [hanswer]
  exact answerWith_alike hleft hright descend relation

/-! ### Questions that tell texts apart -/

/-- The void type is a subtype of the special types and of nothing else. -/
theorem answer_voidType (room : Nat) (text : String) :
    answer config below room .subtype config.voidType text =
      .ok (config.isRoot text || config.isVoid text) := by
  have hvoid : config.isVoid config.voidType = true := decide_eq_true rfl
  obtain ⟨descend, hanswer⟩ := exists_answer_eq config below room
  rw [hanswer, answerWith, Config.verdict?, hvoid]
  cases config.isRoot text <;> rfl

/-- A name is a subtype of a type with that base if the type is raw, and only then. -/
theorem answer_base {use : TypeUse} (hparse : TypeUse.parse text = .ok use)
    (hverdict : config.verdict? .subtype use.base text = none) (hbelow : below use.base use.base)
    (room : Nat) : answer config below room .subtype use.base text = .ok (!use.isGeneric) := by
  have hname := TypeUse.parse_raw (TypeUse.open_notMem_base hparse)
  obtain ⟨descend, hanswer⟩ := exists_answer_eq config below room
  rw [hanswer, answerWith, hverdict]
  dsimp only
  rw [Engine.readBoth_eq_ok_iff.2 ⟨hname, hparse⟩]
  dsimp only
  rw [(related_subtype_iff config below).2 hbelow, rawVerdict?]
  cases use.isGeneric <;> rfl

end Ideal

/-! ### Plain texts -/

namespace Config

variable {config : Config} {text : String}

/-- A special type that is named without brackets is no text with brackets. -/
theorem isVoid_of_open (hvoid : '<' ∉ config.voidType.toList) (hopen : '<' ∈ text.toList) :
    config.isVoid text = false := by
  refine decide_eq_false ?_
  rintro rfl
  exact hvoid hopen

theorem isRoot_of_open (hroot : '<' ∉ config.rootType.toList) (hopen : '<' ∈ text.toList) :
    config.isRoot text = false := by
  refine Bool.or_eq_false_iff.2 ⟨decide_eq_false ?_, decide_eq_false ?_⟩
  · rintro rfl
    exact hroot hopen
  · rintro rfl
    exact hroot (mem_of_mem_simpleName hopen)

end Config

namespace AppliedType

variable {config : Config} {text : String} {type : AppliedType}

/-- The text is read as the type, and it is the same special type as the canonical text of the type,
or none like that one. If the type has no arguments, there is no text between brackets either. -/
structure Plain (config : Config) (text : String) (type : AppliedType) : Prop where
  parse_eq : parse text = .ok type
  isRoot_eq : config.isRoot text = config.isRoot type.render
  isVoid_eq : config.isVoid text = config.isVoid type.render
  raw : type.arguments = [] → (TypeUse.parse text).map TypeUse.isGeneric = .ok false

theorem render_of_nil (h : type.arguments = []) : type.render = type.base := by
  rw [render, h]
  rfl

/-- What a question reads off a text, if brackets around no arguments are empty. -/
theorem reading_eq (h : parse text = .ok type)
    (hraw : type.arguments = [] → (TypeUse.parse text).map TypeUse.isGeneric = .ok false) :
    (TypeUse.parse text).map TypeUse.reading =
      .ok (type.base, !type.arguments.isEmpty, .ok type.arguments) := by
  obtain ⟨use, hparse, hbase, harguments⟩ := parse_eq_ok_iff.1 h
  have hgeneric : use.isGeneric = !type.arguments.isEmpty := by
    by_cases hnone : type.arguments = []
    · have hread := hraw hnone
      rw [hparse] at hread
      rw [hnone]
      exact Except.ok.inj hread
    · rw [List.isEmpty_eq_false_iff.2 hnone]
      refine decide_eq_true fun hempty => hnone ?_
      rw [TypeUse.arguments, hempty] at harguments
      exact (Except.ok.inj harguments).symm
  rw [hparse, ← hgeneric, ← hbase, ← harguments]
  rfl

/-- The canonical text of a type that can be written is plain. -/
theorem plain_render (config : Config) (h : type.Writable) : Plain config type.render type := by
  refine ⟨parse_render h, rfl, rfl, fun hnone => ?_⟩
  rw [render_of_nil hnone, TypeUse.parse_raw h.open_notMem]
  rfl

/-- A plain text is alike to the canonical text. -/
theorem Plain.alike (h : Plain config text type) : Ideal.Alike config text type.render := by
  have hcanonical := plain_render config (writable_of_parse h.parse_eq)
  refine ⟨h.isRoot_eq, h.isVoid_eq, ?_⟩
  rw [reading_eq h.parse_eq h.raw, reading_eq hcanonical.parse_eq hcanonical.raw]

/-- A text without brackets is read as a name, and is canonical. -/
theorem eq_of_open_notMem (h : parse text = .ok type) (hopen : '<' ∉ text.toList) :
    type = ⟨text, []⟩ := by
  obtain ⟨use, hparse, hbase, harguments⟩ := parse_eq_ok_iff.1 h
  obtain rfl := Except.ok.inj ((TypeUse.parse_raw hopen).symm.trans hparse)
  obtain ⟨base, arguments⟩ := type
  obtain rfl := hbase
  obtain rfl := Except.ok.inj harguments
  rfl

theorem open_mem_render (h : type.arguments ≠ []) : '<' ∈ type.render.toList := by
  rw [render, if_neg (by simpa using h)]
  simp

section SpecialNames

variable (hroot : '<' ∉ config.rootType.toList) (hvoid : '<' ∉ config.voidType.toList)

include hroot hvoid

/-- A text with arguments, or without brackets, is plain. -/
theorem plain_of_arguments (h : parse text = .ok type)
    (hargument : type.arguments ≠ [] ∨ '<' ∉ text.toList) : Plain config text type := by
  by_cases hopen : '<' ∈ text.toList
  · have hne := hargument.resolve_right (not_not.2 hopen)
    have hopen' := open_mem_render hne
    refine ⟨h, ?_, ?_, fun hnone => absurd hnone hne⟩
    · rw [config.isRoot_of_open hroot hopen, config.isRoot_of_open hroot hopen']
    · rw [config.isVoid_of_open hvoid hopen, config.isVoid_of_open hvoid hopen']
  · obtain rfl := eq_of_open_notMem h hopen
    refine ⟨h, rfl, rfl, fun _ => ?_⟩
    rw [TypeUse.parse_raw hopen]
    rfl

/-- A text with brackets but no arguments is plain exactly if its base is not special and its
brackets are empty. -/
theorem plain_iff_of_nil (h : parse text = .ok type) (hnone : type.arguments = [])
    (hopen : '<' ∈ text.toList) : Plain config text type ↔
      config.isRoot type.base = false ∧ config.isVoid type.base = false ∧
        (TypeUse.parse text).map TypeUse.isGeneric = .ok false := by
  have hrender := render_of_nil hnone
  have hnotRoot := config.isRoot_of_open hroot hopen
  have hnotVoid := config.isVoid_of_open hvoid hopen
  constructor
  · rintro ⟨-, hsameRoot, hsameVoid, hraw⟩
    rw [hrender] at hsameRoot hsameVoid
    exact ⟨hsameRoot.symm.trans hnotRoot, hsameVoid.symm.trans hnotVoid, hraw hnone⟩
  · rintro ⟨hbaseRoot, hbaseVoid, hraw⟩
    rw [← hrender] at hbaseRoot hbaseVoid
    exact ⟨h, hnotRoot.trans hbaseRoot.symm, hnotVoid.trans hbaseVoid.symm, fun _ => hraw⟩

end SpecialNames

end AppliedType

namespace Ideal

open AppliedType (Plain)

variable {config : Config} {below : (sub sup : String) → Prop} {text : String} {type : AppliedType}

/-- The plain texts of a type are those that no question tells from its canonical text. -/
theorem plain_iff (hbelow : ∀ name, below name name) (hroot : '<' ∉ config.rootType.toList)
    (hvoid : '<' ∉ config.voidType.toList) (h : AppliedType.parse text = .ok type) (room : Nat) :
    Plain config text type ↔ ∀ relation other,
      answer config below room relation text other =
          answer config below room relation type.render other ∧
        answer config below room relation other text =
          answer config below room relation other type.render := by
  refine ⟨fun hplain relation other => ?_, fun hsame => ?_⟩
  · have halike := hplain.alike
    exact ⟨answer_alike halike (.refl config other) room relation,
      answer_alike (.refl config other) halike room relation⟩
  by_cases hargument : type.arguments ≠ [] ∨ '<' ∉ text.toList
  · exact AppliedType.plain_of_arguments hroot hvoid h hargument
  -- What is left has brackets but no arguments. The void type shows whether the base is special,
  -- and the base itself shows whether the brackets are empty.
  obtain ⟨hnone, hopen⟩ : type.arguments = [] ∧ '<' ∈ text.toList := by
    simpa only [not_or, not_not] using hargument
  rw [AppliedType.plain_iff_of_nil hroot hvoid h hnone hopen]
  rw [AppliedType.render_of_nil hnone] at hsame
  have hnotRoot := config.isRoot_of_open hroot hopen
  have hnotVoid := config.isVoid_of_open hvoid hopen
  have hspecial := (hsame .subtype config.voidType).2
  rw [answer_voidType, answer_voidType, hnotRoot, hnotVoid] at hspecial
  obtain ⟨hbaseRoot, hbaseVoid⟩ := Bool.or_eq_false_iff.1 (Except.ok.inj hspecial).symm
  refine ⟨hbaseRoot, hbaseVoid, ?_⟩
  obtain ⟨use, hparse, hbase, -⟩ := AppliedType.parse_eq_ok_iff.1 h
  rw [← hbase] at hsame hbaseRoot hbaseVoid
  have hverdict : config.verdict? .subtype use.base text = none := by
    rw [Config.verdict?, hnotRoot, hnotVoid, hbaseVoid]
    rfl
  have hverdict' : config.verdict? .subtype use.base use.base = none := by
    rw [Config.verdict?, hbaseRoot, hbaseVoid]
    rfl
  have hname := TypeUse.parse_raw (TypeUse.open_notMem_base hparse)
  have hraw := (hsame .subtype use.base).2
  rw [answer_base hparse hverdict (hbelow _), answer_base hname hverdict' (hbelow _)] at hraw
  rw [hparse]
  exact congrArg Except.ok (Bool.not_inj (Except.ok.inj hraw))

end Ideal

end NominalSubtyping
