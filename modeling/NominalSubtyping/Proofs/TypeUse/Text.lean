import Mathlib.Data.List.Basic
import Mathlib.Data.List.TakeWhile
import NominalSubtyping.TypeUse.Basic

/-!
# Reading the text of a type use

Three things are done with the text of a type use: it is split at its first `<` and its last `>`,
the text between them is split at its top-level commas, and the blanks around each part are dropped.
This module says what that gives for a text that was put together the other way round.

A text is *framed* if it begins and ends with a character that is not blank; such a text is what is
left when the blanks around it are dropped. A text is *solid* inside a number of brackets if the
split passes over it as a whole there: its brackets balance, and inside no bracket at all it must
not show a comma.

## Main definitions

* `Text.Framed` : a text without blanks at its ends.
* `Arguments.Solid` : a text that is not split.

## Main results

* `Text.trim_pad` : the blanks around a framed text are dropped.
* `Text.exists_pad_trim` : what is left of a text, and the blanks around it, make up the text.
* `Arguments.segments_intercalate` : solid texts divided by commas are the segments of the whole.
* `TypeUse.splitArguments_of_solid` : solid texts divided by commas are the arguments of the whole.
* `TypeUse.parse_written` : a base with its arguments in brackets is read as such.
-/

namespace NominalSubtyping

/-! ### Blanks -/

namespace Text

/-- The text begins and ends with a character that is not blank. -/
structure Framed (text : List Char) : Prop where
  nonempty : text ≠ []
  head : ∀ c ∈ text.head?, isBlank c = false
  last : ∀ c ∈ text.getLast?, isBlank c = false

/-- Blanks in front of a text that begins with something else are dropped. -/
theorem dropWhile_isBlank {blanks text : List Char} (hblanks : ∀ c ∈ blanks, isBlank c = true)
    (hhead : ∀ c ∈ text.head?, isBlank c = false) :
    (blanks ++ text).dropWhile isBlank = text := by
  rw [List.dropWhile_append_of_pos hblanks]
  cases text with
  | nil => rfl
  | cons c text =>
    refine List.dropWhile_cons_of_neg ?_
    rw [hhead c rfl]
    exact Bool.false_ne_true

/-- The blanks around a framed text are dropped. -/
theorem trim_pad {before text after : List Char} (htext : Framed text)
    (hbefore : ∀ c ∈ before, isBlank c = true) (hafter : ∀ c ∈ after, isBlank c = true) :
    trim (before ++ text ++ after) = text := by
  have hfront : (before ++ (text ++ after)).dropWhile isBlank = text ++ after := by
    refine dropWhile_isBlank hbefore fun c hc => htext.head c ?_
    rwa [List.head?_append_of_ne_nil _ htext.nonempty] at hc
  have hback : (after.reverse ++ text.reverse).dropWhile isBlank = text.reverse := by
    refine dropWhile_isBlank (fun c hc => hafter c (List.mem_reverse.1 hc)) fun c hc => ?_
    rw [List.head?_reverse] at hc
    exact htext.last c hc
  rw [trim, List.append_assoc, hfront, List.reverse_append, hback, List.reverse_reverse]

/-- What is dropped at the two ends of a text is blank. -/
theorem exists_pad_trim (text : List Char) :
    ∃ before after, (∀ c ∈ before, isBlank c = true) ∧ (∀ c ∈ after, isBlank c = true) ∧
      text = before ++ trim text ++ after := by
  refine ⟨text.takeWhile isBlank, ((text.dropWhile isBlank).reverse.takeWhile isBlank).reverse,
    fun c hc => List.mem_takeWhile_imp hc,
    fun c hc => List.mem_takeWhile_imp (List.mem_reverse.1 hc), ?_⟩
  rw [trim, List.append_assoc, ← List.reverse_append, List.takeWhile_append_dropWhile,
    List.reverse_reverse, List.takeWhile_append_dropWhile]

/-- Nothing is left of a text exactly if it is blank. -/
theorem trim_eq_nil_iff {text : List Char} : trim text = [] ↔ text.all isBlank = true := by
  constructor
  · intro h
    obtain ⟨before, after, hbefore, hafter, htext⟩ := exists_pad_trim text
    rw [htext, h, List.append_nil, List.all_append, Bool.and_eq_true]
    exact ⟨List.all_eq_true.2 hbefore, List.all_eq_true.2 hafter⟩
  · intro h
    rw [trim, List.dropWhile_eq_nil_iff.2 (List.all_eq_true.1 h)]
    rfl

/-- What is left of a text is framed, unless nothing is left. -/
theorem framed_trim {text : List Char} (h : trim text ≠ []) : Framed (trim text) := by
  have hfirst (text : List Char) : ∀ c ∈ (text.dropWhile isBlank).head?, isBlank c = false := by
    intro c hc
    have hhead := List.head?_dropWhile_not isBlank text
    rwa [Option.mem_def.1 hc] at hhead
  refine ⟨h, fun c hc => hfirst text c ?_, fun c hc => ?_⟩
  · obtain ⟨after, hafter⟩ : trim text <+: text.dropWhile isBlank := by
      rw [trim, ← List.reverse_suffix, List.reverse_reverse]
      exact List.dropWhile_suffix isBlank
    rwa [← hafter, List.head?_append_of_ne_nil _ h]
  · rw [trim, List.getLast?_reverse] at hc
    exact hfirst _ c hc

/-- A second time nothing is dropped. -/
theorem trim_trim (text : List Char) : trim (trim text) = trim text := by
  by_cases h : trim text = []
  · rw [h]
    rfl
  · have hnone : ∀ c ∈ ([] : List Char), isBlank c = true := fun c hc => absurd hc List.not_mem_nil
    have hpad := trim_pad (framed_trim h) hnone hnone
    rwa [List.nil_append, List.append_nil] at hpad

end Text

/-! ### Commas -/

namespace Arguments

/-- Inside `least` or more brackets the split passes over the text as a whole. -/
structure Solid (least : Nat) (text : List Char) : Prop where
  pass : ∀ {depth : Nat} {rest segment : List Char} {more : List (List Char)}, least ≤ depth →
    (∀ outer offset, segments depth outer offset rest = .ok (segment :: more)) →
    ∀ outer offset, segments depth outer offset (text ++ rest) = .ok ((text ++ segment) :: more)

namespace Solid

variable {least : Nat} {text text' : List Char}

theorem nil : Solid least [] :=
  ⟨fun _ hrest => hrest⟩

theorem append (h : Solid least text) (h' : Solid least text') : Solid least (text ++ text') := by
  refine ⟨fun hdepth hrest outer offset => ?_⟩
  rw [List.append_assoc, List.append_assoc]
  exact h.pass hdepth (h'.pass hdepth hrest) outer offset

/-- More brackets around it do no harm. -/
theorem mono {least' : Nat} (h : Solid least text) (hle : least ≤ least') : Solid least' text :=
  ⟨fun hdepth => h.pass (Nat.le_trans hle hdepth)⟩

/-- A character that is neither a bracket nor a comma, or a comma inside brackets. -/
theorem char {c : Char} (hopen : c ≠ '<') (hclose : c ≠ '>') (hcomma : c = ',' → 0 < least) :
    Solid least [c] := by
  refine ⟨fun {depth rest segment more} hdepth hrest outer offset => ?_⟩
  have htop : ¬ (c = ',' ∧ depth = 0) := by
    rintro ⟨hc, rfl⟩
    have := hcomma hc
    omega
  simp only [List.singleton_append, segments, if_neg hopen, if_neg hclose, if_neg htop]
  rw [hrest]
  rfl

theorem of_forall (h : ∀ c ∈ text, c ≠ '<' ∧ c ≠ '>' ∧ c ≠ ',') : Solid least text := by
  induction text with
  | nil => exact nil
  | cons c text ih =>
    obtain ⟨hopen, hclose, hcomma⟩ := h c List.mem_cons_self
    exact (char hopen hclose fun hc => absurd hc hcomma).append
      (ih fun d hd => h d (List.mem_cons_of_mem c hd))

/-- A pair of brackets around a text that is solid inside one bracket. -/
theorem bracket (h : Solid 1 text) : Solid least ('<' :: (text ++ ['>'])) := by
  refine ⟨fun {depth rest segment more} _ hrest outer offset => ?_⟩
  have hclose (outer offset : Nat) :
      segments (depth + 1) outer offset ('>' :: rest) = .ok (('>' :: segment) :: more) := by
    simp only [segments, if_neg (by decide : ¬ '>' = '<'), if_pos, if_neg (Nat.succ_ne_zero depth),
      Nat.add_sub_cancel]
    rw [hrest]
    rfl
  have hinner := h.pass (Nat.le_add_left 1 depth) hclose (if depth = 0 then offset else outer)
    (offset + '<'.utf8Size)
  rw [List.cons_append, List.append_assoc, List.singleton_append, segments, if_pos rfl, hinner,
    List.cons_append, List.append_assoc]
  rfl

theorem intercalate {texts : List (List Char)} (h : ∀ text ∈ texts, Solid 1 text) :
    Solid 1 ([','].intercalate texts) := by
  induction texts with
  | nil => exact nil
  | cons text texts ih =>
    have hfirst := h text List.mem_cons_self
    have hrest := ih fun other hother => h other (List.mem_cons_of_mem text hother)
    rcases texts with _ | ⟨next, texts⟩
    · rw [List.intercalate_singleton]
      exact hfirst
    · rw [List.intercalate_cons_cons]
      exact (hfirst.append (char (by decide) (by decide) fun _ => Nat.one_pos)).append hrest

end Solid

/-- Solid texts divided by commas are the segments of the whole. -/
theorem segments_intercalate {texts : List (List Char)} (hne : texts ≠ [])
    (h : ∀ text ∈ texts, Solid 0 text) (outer offset : Nat) :
    segments 0 outer offset ([','].intercalate texts) = .ok texts := by
  induction texts generalizing outer offset with
  | nil => exact absurd rfl hne
  | cons text texts ih =>
    have hfirst := h text List.mem_cons_self
    rcases texts with _ | ⟨next, texts⟩
    · have hnil (outer offset : Nat) : segments 0 outer offset [] = .ok [[]] :=
        rfl
      have hend := hfirst.pass (Nat.le_refl 0) hnil outer offset
      rw [List.intercalate_singleton]
      rwa [List.append_nil] at hend
    · have hrest := ih (List.cons_ne_nil next texts)
        fun other hother => h other (List.mem_cons_of_mem text hother)
      have hcomma (outer offset : Nat) :
          segments 0 outer offset (',' :: [','].intercalate (next :: texts)) =
            .ok ([] :: next :: texts) := by
        simp only [segments, if_neg (by decide : ¬ ',' = '<'), if_neg (by decide : ¬ ',' = '>'),
          if_pos, and_self]
        rw [hrest]
        rfl
      rw [List.intercalate_cons_cons, List.append_assoc, List.singleton_append,
        hfirst.pass (Nat.le_refl 0) hcomma, List.append_nil]

end Arguments

/-! ### Brackets -/

namespace TypeUse

theorem beforeLast_append (mark : Char) (text : List Char) :
    beforeLast mark (text ++ [mark]) = some text := by
  induction text with
  | nil => simp [beforeLast]
  | cons c text ih => rw [List.cons_append, beforeLast, ih]

/-- A text without brackets is a raw type use. -/
theorem parse_raw {text : String} (h : '<' ∉ text.toList) : parse text = .ok ⟨text, ""⟩ := by
  have hall : text.toList.dropWhile (fun c => decide (c ≠ '<')) = [] := by
    refine List.dropWhile_eq_nil_iff.2 fun c hc => decide_eq_true ?_
    exact fun hopen => h (hopen ▸ hc)
  rw [parse, hall]

/-- The text of a base with its arguments, which stand in brackets if there are any. -/
def written (base : List Char) (arguments : List (List Char)) : List Char :=
  if arguments = [] then base else base ++ '<' :: ([','].intercalate arguments ++ ['>'])

/-- A base with its arguments is read as such. -/
theorem parse_written {base : List Char} (hbase : '<' ∉ base) (arguments : List (List Char)) :
    parse (String.ofList (written base arguments)) =
      .ok ⟨String.ofList base, String.ofList ([','].intercalate arguments)⟩ := by
  have hpos : ∀ c ∈ base, decide (c ≠ '<') = true := by
    intro c hc
    exact decide_eq_true fun h => hbase (h ▸ hc)
  rw [written]
  by_cases hnone : arguments = []
  · subst hnone
    have hraw : '<' ∉ (String.ofList base).toList := by rwa [String.toList_ofList]
    exact parse_raw hraw
  · rw [if_neg hnone, parse, String.toList_ofList, List.takeWhile_append_of_pos hpos,
      List.dropWhile_append_of_pos hpos]
    have htake (rest : List Char) : ('<' :: rest).takeWhile (fun c => decide (c ≠ '<')) = [] := rfl
    have hdrop (rest : List Char) :
        ('<' :: rest).dropWhile (fun c => decide (c ≠ '<')) = '<' :: rest := rfl
    rw [htake, hdrop, List.append_nil]
    dsimp only
    rw [beforeLast_append]

/-- A list of arguments is not blank if its first argument is not. -/
theorem intercalate_all_isBlank {texts : List (List Char)} (hne : texts ≠ [])
    (hblank : ∀ text ∈ texts, text.all Text.isBlank = false) :
    ([','].intercalate texts).all Text.isBlank = false := by
  obtain ⟨text, rest, rfl⟩ := List.exists_cons_of_ne_nil hne
  have hfirst := hblank text List.mem_cons_self
  rcases rest with _ | ⟨next, rest⟩
  · rwa [List.intercalate_singleton]
  · rw [List.intercalate_cons_cons, List.append_assoc, List.all_append, hfirst, Bool.false_and]

/-- Solid texts that are not all blank, with the commas between them, are read as the arguments,
without the blanks around them. -/
theorem splitArguments_of_solid {texts : List (List Char)} (hne : texts ≠ [])
    (hsolid : ∀ text ∈ texts, Arguments.Solid 0 text)
    (hblank : ([','].intercalate texts).all Text.isBlank = false) :
    splitArguments (String.ofList ([','].intercalate texts)) =
      .ok (texts.map fun text => String.ofList (Text.trim text)) := by
  rw [splitArguments, String.toList_ofList, hblank, if_neg Bool.false_ne_true,
    Arguments.segments_intercalate hne hsolid]

/-- Solid texts of which none is blank are read as the arguments. -/
theorem splitArguments_intercalate {texts : List (List Char)} (hne : texts ≠ [])
    (hsolid : ∀ text ∈ texts, Arguments.Solid 0 text)
    (hblank : ∀ text ∈ texts, text.all Text.isBlank = false) :
    splitArguments (String.ofList ([','].intercalate texts)) =
      .ok (texts.map fun text => String.ofList (Text.trim text)) :=
  splitArguments_of_solid hne hsolid (intercalate_all_isBlank hne hblank)

end TypeUse

end NominalSubtyping
