import Mathlib.Data.List.Infix
import NominalSubtyping.Proofs.TypeUse.Text

/-!
# Brackets that balance

The brackets of a text are *nested* if no first part of it closes more brackets than it opens, and
they *balance* if moreover the whole text closes as many as it opens. A comma is *top-level* if the
text in front of it closes all the brackets that it opens.

An argument text is read once from left to right, with a count of the open brackets, the offset of
the outermost of them and the offset reached. What these figures mean is a statement about the part
that has been read, which every further character keeps. At the end it says what has been found: the
first `>` that closes nothing, or else the first `<` that nothing closes, or else the segments
between the top-level commas.

## Main definitions

* `Text.Nested`, `Text.Balanced` : texts whose brackets are nested, or balance.
* `Text.Closes` : a text that closes a bracket in front of it.
* `Text.topCommas` : the number of top-level commas.
* `Arguments.Reading` : what is known of the part of a text that has been read.
* `Arguments.Divides` : segments between top-level commas.

## Main results

* `Arguments.segments_finding`, `Arguments.segments_divides` : what a reading of a whole text finds.
* `Arguments.Solid.of_balanced` : balanced texts without top-level commas are not split.
* `splitArguments_exact` : which texts have arguments, what these are, and where the others fail.
-/

namespace NominalSubtyping

/-! ### Nested and balanced texts -/

namespace Text

variable {text text' before after : List Char} {c : Char}

/-- No first part of the text closes more brackets than it opens. -/
def Nested (text : List Char) : Prop :=
  ∀ before, before <+: text → before.count '>' ≤ before.count '<'

/-- The brackets of the text are nested, and all of them are closed. -/
structure Balanced (text : List Char) : Prop where
  nested : Nested text
  count_eq : text.count '<' = text.count '>'

/-- The text closes a bracket that is open in front of it, after a part that balances. -/
def Closes (text : List Char) : Prop :=
  ∃ inside rest, text = inside ++ '>' :: rest ∧ Balanced inside

/-- The number of commas of the text that stand inside no bracket. -/
def topCommas (text : List Char) : Nat :=
  (List.range text.length).countP fun i =>
    text[i]? = some ',' ∧ (text.take i).count '<' = (text.take i).count '>'

instance : DecidablePred Nested := fun text =>
  decidable_of_iff (∀ before ∈ text.inits, before.count '>' ≤ before.count '<') (by
    simp only [List.mem_inits, Nested])

instance : DecidablePred Balanced := fun text =>
  decidable_of_iff (Nested text ∧ text.count '<' = text.count '>')
    ⟨fun h => ⟨h.1, h.2⟩, fun h => ⟨h.nested, h.count_eq⟩⟩

theorem nested_nil : Nested [] := by
  intro before hbefore
  rw [List.prefix_nil.1 hbefore]
  exact Nat.le_refl 0

/-- A first part of a nested text is nested. -/
theorem Nested.of_prefix (h : Nested text) (hbefore : before <+: text) : Nested before :=
  fun first hfirst => h first (hfirst.trans hbefore)

/-- One more character has to be considered together with all that is in front of it. -/
theorem nested_concat : Nested (text ++ [c]) ↔
    Nested text ∧ (text ++ [c]).count '>' ≤ (text ++ [c]).count '<' := by
  refine ⟨fun h => ⟨h.of_prefix (List.prefix_append text [c]), h _ List.prefix_rfl⟩, ?_⟩
  rintro ⟨hnested, hwhole⟩ before hbefore
  rcases List.prefix_concat_iff.1 hbefore with rfl | hbefore
  · exact hwhole
  · exact hnested before hbefore

/-- A nested text may follow another one. -/
theorem Nested.append (h : Nested text) (h' : Nested text') : Nested (text ++ text') := by
  induction text' using List.reverseRecOn with
  | nil => rwa [List.append_nil]
  | append_singleton text' c ih =>
    obtain ⟨hfirst, hlast⟩ := nested_concat.1 h'
    have hwhole := Nat.add_le_add (h text List.prefix_rfl) hlast
    rw [← List.count_append, ← List.count_append] at hwhole
    rw [← List.append_assoc, nested_concat, List.append_assoc]
    exact ⟨ih hfirst, hwhole⟩

/-- Nothing closes a bracket in front of a nested text. -/
theorem Nested.not_closes (h : Nested text) : ¬ Closes text := by
  rintro ⟨inside, rest, rfl, hinside⟩
  have hmore := h (inside ++ ['>']) ⟨rest, by simp⟩
  have heq := hinside.count_eq
  simp at hmore
  omega

/-- A `>` after a text that balances closes nothing. -/
theorem Balanced.not_nested (h : Balanced before) : ¬ Nested (before ++ '>' :: after) :=
  fun hnested => hnested.not_closes ⟨before, after, rfl, h⟩

/-- A `<` that nothing closes leaves a text nested but not balanced. -/
theorem Balanced.nested_open (h : Balanced before) (h' : Nested after) :
    Nested (before ++ '<' :: after) ∧ ¬ Balanced (before ++ '<' :: after) := by
  have hopen : Nested ['<'] := by decide
  refine ⟨h.nested.append (hopen.append h'), fun hwhole => ?_⟩
  have heq := hwhole.count_eq
  have hbefore := h.count_eq
  have hafter := h' after List.prefix_rfl
  simp at heq
  omega

/-! ### Top-level commas -/

/-- The last character counts if it is a comma after a text that closes all that it opens. -/
theorem topCommas_concat (text : List Char) (c : Char) : topCommas (text ++ [c]) =
    topCommas text + if c = ',' ∧ text.count '<' = text.count '>' then 1 else 0 := by
  rw [topCommas, List.length_append, List.length_singleton, List.range_succ, List.countP_append]
  congr 1
  · refine List.countP_congr fun i hi => ?_
    have hi' : i < text.length := List.mem_range.1 hi
    rw [List.getElem?_append_left hi', List.take_append_of_le_length (Nat.le_of_lt hi')]
  · simp only [List.countP_singleton, List.getElem?_concat_length, List.take_left, Option.some_inj,
      decide_eq_true_eq]

/-- The commas after a text that closes all that it opens are counted on their own. -/
theorem topCommas_append (heq : text.count '<' = text.count '>') (text' : List Char) :
    topCommas (text ++ text') = topCommas text + topCommas text' := by
  induction text' using List.reverseRecOn with
  | nil => rw [List.append_nil]; rfl
  | append_singleton text' c ih =>
    rw [← List.append_assoc, topCommas_concat, topCommas_concat, ih, Nat.add_assoc]
    simp only [List.count_append, heq, Nat.add_left_cancel_iff]

/-- A text has no top-level comma exactly if in front of every comma a bracket is open. -/
theorem topCommas_eq_zero_iff : topCommas text = 0 ↔
    ∀ before after, text = before ++ ',' :: after → before.count '<' ≠ before.count '>' := by
  rw [topCommas, List.countP_eq_zero]
  constructor
  · rintro h before after rfl heq
    refine h before.length (List.mem_range.2 (by simp)) (decide_eq_true ?_)
    rw [List.take_left]
    exact ⟨by simp, heq⟩
  · intro h i hi hcomma
    obtain ⟨hchar, heq⟩ := of_decide_eq_true hcomma
    refine h (text.take i) (text.drop (i + 1)) ?_ heq
    obtain ⟨hlt, hget⟩ := List.getElem?_eq_some_iff.1 hchar
    rw [← hget, ← List.drop_eq_getElem_cons hlt, List.take_append_drop]

end Text

/-! ### Reading a text -/

namespace Arguments

open Text

variable {before after part : List Char} {depth outer offset : Nat} {c : Char}
  {result : Except (Imbalance × Nat) (List (List Char))} {found : List (List Char)}

/-- What is known when `before` has been read: its brackets are nested, `depth` of them are open,
and if there are any, the outermost stands at `outer`, after a part that balances. -/
structure Reading (before : List Char) (depth outer : Nat) : Prop where
  nested : Nested before
  count_eq : before.count '<' = before.count '>' + depth
  outer_eq : 0 < depth → ∃ closed inside, before = closed ++ '<' :: inside ∧ Balanced closed ∧
    Nested inside ∧ outer = byteLength closed

namespace Reading

theorem start (outer : Nat) : Reading [] 0 outer :=
  ⟨nested_nil, rfl, fun h => absurd h (Nat.lt_irrefl 0)⟩

theorem balanced (h : Reading before 0 outer) : Balanced before :=
  ⟨h.nested, h.count_eq⟩

theorem open_bracket (h : Reading before depth outer) :
    Reading (before ++ ['<']) (depth + 1) (if depth = 0 then byteLength before else outer) := by
  have hcount := h.count_eq
  refine ⟨h.nested.append (by decide), by simp [hcount]; omega, fun _ => ?_⟩
  split
  · rename_i hdepth
    subst hdepth
    exact ⟨before, [], rfl, h.balanced, nested_nil, rfl⟩
  · rename_i hdepth
    obtain ⟨closed, inside, rfl, hclosed, hinside, houter⟩ := h.outer_eq (Nat.pos_of_ne_zero hdepth)
    exact ⟨closed, inside ++ ['<'], by simp, hclosed, hinside.append (by decide), houter⟩

theorem close_bracket (h : Reading before (depth + 1) outer) :
    Reading (before ++ ['>']) depth outer := by
  have hcount := h.count_eq
  obtain ⟨closed, inside, rfl, hclosed, hinside, houter⟩ := h.outer_eq (Nat.succ_pos depth)
  refine ⟨nested_concat.2 ⟨h.nested, ?_⟩, ?_, fun hdepth => ?_⟩
  · simp at hcount ⊢
    omega
  · simp at hcount ⊢
    omega
  · -- With another bracket open, the outermost one is not the one that is closed.
    have heq := hclosed.count_eq
    refine ⟨closed, inside ++ ['>'], by simp, hclosed, nested_concat.2 ⟨hinside, ?_⟩, houter⟩
    simp at hcount ⊢
    omega

theorem pass (h : Reading before depth outer) (hopen : c ≠ '<') (hclose : c ≠ '>') :
    Reading (before ++ [c]) depth outer := by
  have hcount := h.count_eq
  have hnested (text : List Char) (htext : Nested text) : Nested (text ++ [c]) := by
    refine htext.append fun first hfirst => ?_
    rw [List.count_eq_zero_of_not_mem fun hmem => ?_]
    · exact Nat.zero_le _
    · exact hclose (List.mem_singleton.1 (hfirst.subset hmem)).symm
  refine ⟨hnested before h.nested, by simp [hopen, hclose, hcount], ?_⟩
  intro hdepth
  obtain ⟨closed, inside, rfl, hclosed, hinside, houter⟩ := h.outer_eq hdepth
  exact ⟨closed, inside ++ [c], by simp, hclosed, hnested inside hinside, houter⟩

end Reading

/-- What a reading of the text comes to: its brackets balance, or `position` is the place of a `>`
after a part that balances, or of a `<` between such a part and a nested one. -/
def Finding (text : List Char) : Except (Imbalance × Nat) (List (List Char)) → Prop
  | .ok _ => Balanced text
  | .error (.unmatched, position) =>
    ∃ before after, text = before ++ '>' :: after ∧ Balanced before ∧ position = byteLength before
  | .error (.unclosed, position) =>
    ∃ before after, text = before ++ '<' :: after ∧ Balanced before ∧ Nested after ∧
      position = byteLength before

theorem finding_map {text : List Char} {f : List (List Char) → List (List Char)}
    (h : Finding text result) : Finding text (result.map f) := by
  rcases result with ⟨_ | _, position⟩ | found
  · exact h
  · exact h
  · exact h

/-- The reading of the rest of a text tells about the whole text. -/
theorem segments_finding (after : List Char) : ∀ {before : List Char} {depth outer : Nat},
    Reading before depth outer →
    Finding (before ++ after) (segments depth outer (byteLength before) after) := by
  induction after with
  | nil =>
    intro before depth outer h
    rw [segments, List.append_nil]
    split
    · rename_i hdepth
      subst hdepth
      exact h.balanced
    · rename_i hdepth
      exact h.outer_eq (Nat.pos_of_ne_zero hdepth)
  | cons c after ih =>
    intro before depth outer h
    have hnext {depth outer : Nat} (h' : Reading (before ++ [c]) depth outer) :
        Finding (before ++ c :: after)
          (segments depth outer (byteLength before + c.utf8Size) after) := by
      have hrest := ih h'
      rwa [List.append_assoc, List.singleton_append, byteLength_append] at hrest
    rw [segments]
    by_cases hopen : c = '<'
    · subst hopen
      rw [if_pos rfl]
      exact finding_map (hnext h.open_bracket)
    rw [if_neg hopen]
    by_cases hclose : c = '>'
    · subst hclose
      rw [if_pos rfl]
      cases depth with
      | zero => exact ⟨before, after, rfl, h.balanced, rfl⟩
      | succ depth => exact finding_map (hnext h.close_bracket)
    rw [if_neg hclose]
    split
    · exact finding_map (hnext (h.pass hopen hclose))
    · exact finding_map (hnext (h.pass hopen hclose))

/-- The segments make up the text with commas between them, as many as it has top-level commas. Each
of them balances and has no top-level comma of its own. -/
structure Divides (segments : List (List Char)) (text : List Char) : Prop where
  joined : [','].intercalate segments = text
  length_eq : segments.length = topCommas text + 1
  whole : ∀ segment ∈ segments, Balanced segment ∧ topCommas segment = 0

theorem Divides.single (h : Balanced part) (hcommas : topCommas part = 0) :
    Divides [part] part := by
  refine ⟨List.intercalate_singleton, by rw [hcommas]; rfl, ?_⟩
  intro segment hsegment
  rw [List.mem_singleton.1 hsegment]
  exact ⟨h, hcommas⟩

/-- A further segment in front of the others. -/
theorem Divides.cons (h : Balanced part) (hcommas : topCommas part = 0) {segment : List Char}
    {more : List (List Char)} (hrest : Divides (segment :: more) after) :
    Divides (part :: segment :: more) (part ++ ',' :: after) := by
  refine ⟨?_, ?_, List.forall_mem_cons.2 ⟨⟨h, hcommas⟩, hrest.whole⟩⟩
  · rw [List.intercalate_cons_cons, hrest.joined, List.append_assoc]
    rfl
  · have hcomma : topCommas (part ++ [',']) = 1 := by
      rw [topCommas_concat, hcommas, if_pos ⟨rfl, h.count_eq⟩]
    have hcount : (part ++ [',']).count '<' = (part ++ [',']).count '>' := by
      simp [h.count_eq]
    rw [List.append_cons, topCommas_append hcount, hcomma, List.length_cons, hrest.length_eq]
    omega

/-- The segments of the rest of a text divide the whole text, once what has been read of the segment
under way is put in front of the first of them. -/
theorem segments_divides (after : List Char) : ∀ {part : List Char} {depth mark outer offset : Nat}
    {found : List (List Char)}, Reading part depth mark → topCommas part = 0 →
    segments depth outer offset after = .ok found →
    ∃ segment more, found = segment :: more ∧
      Divides ((part ++ segment) :: more) (part ++ after) := by
  induction after with
  | nil =>
    intro part depth mark outer offset found h hcommas hfound
    rw [segments] at hfound
    split at hfound
    · rename_i hdepth
      subst hdepth
      obtain rfl := Except.ok.inj hfound
      rw [List.append_nil]
      exact ⟨[], [], rfl, by rw [List.append_nil]; exact .single h.balanced hcommas⟩
    · cases hfound
  | cons c after ih =>
    intro part depth mark outer offset found h hcommas hfound
    -- A character that ends no segment belongs to the one under way.
    have hnext {depth' mark' outer' offset' : Nat} (h' : Reading (part ++ [c]) depth' mark')
        (hcommas' : topCommas (part ++ [c]) = 0)
        (hfound' : (segments depth' outer' offset' after).map (extend c) = .ok found) :
        ∃ segment more, found = segment :: more ∧
          Divides ((part ++ segment) :: more) (part ++ c :: after) := by
      cases hrest : segments depth' outer' offset' after with
      | error imbalance =>
        rw [hrest] at hfound'
        cases hfound'
      | ok rest =>
        rw [hrest] at hfound'
        obtain ⟨segment, more, rfl, hdivides⟩ := ih h' hcommas' hrest
        rw [← List.append_cons, ← List.append_cons] at hdivides
        exact ⟨c :: segment, more, (Except.ok.inj hfound').symm, hdivides⟩
    have hcommas' (hc : ¬ (c = ',' ∧ depth = 0)) : topCommas (part ++ [c]) = 0 := by
      have hcount := h.count_eq
      rw [topCommas_concat, hcommas, if_neg fun htop => hc ⟨htop.1, by omega⟩]
    rw [segments] at hfound
    by_cases hopen : c = '<'
    · subst hopen
      rw [if_pos rfl] at hfound
      exact hnext h.open_bracket (hcommas' fun hc => absurd hc.1 (by decide)) hfound
    rw [if_neg hopen] at hfound
    by_cases hclose : c = '>'
    · subst hclose
      rw [if_pos rfl] at hfound
      cases depth with
      | zero => cases hfound
      | succ depth =>
        exact hnext h.close_bracket (hcommas' fun hc => absurd hc.1 (by decide)) hfound
    rw [if_neg hclose] at hfound
    by_cases hcomma : c = ',' ∧ depth = 0
    · rw [if_pos hcomma] at hfound
      obtain ⟨rfl, rfl⟩ := hcomma
      cases hrest : segments 0 outer (offset + ','.utf8Size) after with
      | error imbalance =>
        rw [hrest] at hfound
        cases hfound
      | ok rest =>
        rw [hrest] at hfound
        obtain ⟨segment, more, rfl, hdivides⟩ := ih (.start 0) rfl hrest
        refine ⟨[], segment :: more, (Except.ok.inj hfound).symm, ?_⟩
        rw [List.append_nil]
        exact .cons h.balanced hcommas hdivides
    · rw [if_neg hcomma] at hfound
      exact hnext (h.pass hopen hclose) (hcommas' hcomma) hfound

/-- Where `before` has been read of a text that balances and shows no comma outside its brackets,
the split passes over the rest of the text, whatever brackets there are around it. -/
theorem segments_pass {depth : Nat} {rest segment : List Char} {more : List (List Char)}
    (hrest : ∀ outer offset, segments depth outer offset rest = .ok (segment :: more))
    (after : List Char) : ∀ (before : List Char) {inner outer offset : Nat},
    Balanced (before ++ after) → topCommas (before ++ after) = 0 →
    before.count '<' = before.count '>' + inner →
    segments (depth + inner) outer offset (after ++ rest) = .ok ((after ++ segment) :: more) := by
  induction after with
  | nil =>
    intro before inner outer offset h _ hcount
    have heq := h.count_eq
    rw [List.append_nil] at heq
    obtain rfl : inner = 0 := by omega
    exact hrest outer offset
  | cons c after ih =>
    intro before inner outer offset h hcommas hcount
    have hnext {inner' : Nat}
        (hcount' : (before ++ [c]).count '<' = (before ++ [c]).count '>' + inner')
        (outer' : Nat) : segments (depth + inner') outer' (offset + c.utf8Size) (after ++ rest) =
          .ok ((after ++ segment) :: more) := by
      rw [List.append_cons] at h hcommas
      exact ih _ h hcommas hcount'
    rw [List.cons_append, List.cons_append, segments]
    by_cases hopen : c = '<'
    · subst hopen
      rw [if_pos rfl, Nat.add_assoc, hnext (by simp; omega)]
      rfl
    rw [if_neg hopen]
    by_cases hclose : c = '>'
    · subst hclose
      have hmore := h.nested (before ++ ['>']) ⟨after, by simp⟩
      simp at hmore
      obtain ⟨inner', rfl⟩ : ∃ inner', inner = inner' + 1 := ⟨inner - 1, by omega⟩
      rw [if_pos rfl, ← Nat.add_assoc, if_neg (Nat.succ_ne_zero _), Nat.add_sub_cancel,
        hnext (by simp; omega)]
      rfl
    rw [if_neg hclose]
    have htop : ¬ (c = ',' ∧ depth + inner = 0) := by
      rintro ⟨rfl, hzero⟩
      exact topCommas_eq_zero_iff.1 hcommas before after rfl (by omega)
    rw [if_neg htop, hnext (by simp [hopen, hclose]; omega)]
    rfl

/-- The split passes over a text that balances and has no top-level comma. -/
theorem Solid.of_balanced {text : List Char} (h : Balanced text) (hcommas : topCommas text = 0) :
    Solid 0 text := by
  refine ⟨fun _ hrest outer offset => ?_⟩
  have hcount : ([] : List Char).count '<' = ([] : List Char).count '>' + 0 := rfl
  exact segments_pass hrest text [] h hcommas hcount

/-- The segments of a text that balances are found. -/
theorem segments_of_balanced {text : List Char} (h : Balanced text) :
    ∃ found, segments 0 0 0 text = .ok found ∧ Divides found text := by
  have hfinding : Finding text (segments 0 0 0 text) := segments_finding text (.start 0)
  rcases hread : segments 0 0 0 text with ⟨_ | _, position⟩ | found <;> rw [hread] at hfinding
  · obtain ⟨before, after, rfl, hbefore, hafter, -⟩ := hfinding
    exact absurd h (hbefore.nested_open hafter).2
  · obtain ⟨before, after, rfl, hbefore, -⟩ := hfinding
    exact absurd h.nested hbefore.not_nested
  · obtain ⟨segment, more, rfl, hdivides⟩ := segments_divides text (.start 0) rfl hread
    exact ⟨_, rfl, hdivides⟩

/-- The first `>` that closes nothing is found. -/
theorem segments_of_not_nested {text : List Char} (h : ¬ Nested text) :
    ∃ before after, text = before ++ '>' :: after ∧ Balanced before ∧
      segments 0 0 0 text = .error (.unmatched, byteLength before) := by
  have hfinding : Finding text (segments 0 0 0 text) := segments_finding text (.start 0)
  rcases hread : segments 0 0 0 text with ⟨_ | _, position⟩ | found <;> rw [hread] at hfinding
  · obtain ⟨before, after, rfl, hbefore, hafter, -⟩ := hfinding
    exact absurd (hbefore.nested_open hafter).1 h
  · obtain ⟨before, after, rfl, hbefore, rfl⟩ := hfinding
    exact ⟨before, after, rfl, hbefore, rfl⟩
  · exact absurd hfinding.nested h

/-- In a nested text that does not balance, a `<` that nothing closes is found after a part that
balances. -/
theorem segments_of_nested {text : List Char} (hnested : Nested text) (h : ¬ Balanced text) :
    ∃ before after, text = before ++ '<' :: after ∧ Balanced before ∧ Nested after ∧
      segments 0 0 0 text = .error (.unclosed, byteLength before) := by
  have hfinding : Finding text (segments 0 0 0 text) := segments_finding text (.start 0)
  rcases hread : segments 0 0 0 text with ⟨_ | _, position⟩ | found <;> rw [hread] at hfinding
  · obtain ⟨before, after, rfl, hbefore, hafter, rfl⟩ := hfinding
    exact ⟨before, after, rfl, hbefore, hafter, rfl⟩
  · obtain ⟨before, after, rfl, hbefore, -⟩ := hfinding
    exact absurd hnested hbefore.not_nested
  · exact absurd hfinding h

end Arguments

open Arguments (segments Divides segments_of_balanced segments_of_not_nested segments_of_nested)

/-! ### Splitting a text -/

namespace Text

variable {text before after : List Char}

/-- A mark that is not blank does not occur among blanks. -/
theorem count_of_blank (mark : Char) (hmark : isBlank mark = false)
    (h : ∀ c ∈ text, isBlank c = true) : text.count mark = 0 := by
  refine List.count_eq_zero_of_not_mem fun hmem => ?_
  rw [h mark hmem] at hmark
  cases hmark

theorem Closes.append (h : Closes before) (after : List Char) : Closes (before ++ after) := by
  obtain ⟨inside, rest, rfl, hinside⟩ := h
  exact ⟨inside, rest ++ after, by simp, hinside⟩

/-- In a text that balances every bracket is closed. -/
theorem Balanced.closes (h : Balanced (before ++ '<' :: after)) : Closes after := by
  have hmore : ¬ Nested after := by
    intro hafter
    have heq := h.count_eq
    have hbefore := h.nested before (List.prefix_append _ _)
    have hcount := hafter after List.prefix_rfl
    simp at heq
    omega
  obtain ⟨inside, rest, rfl, hinside, -⟩ := segments_of_not_nested hmore
  exact ⟨inside, rest, rfl, hinside⟩

/-- A bracket that stands further to the front than one after a text that balances is closed. -/
theorem Balanced.closes_before (h : Balanced before) {before' after' : List Char}
    (hsame : before ++ '<' :: after = before' ++ '<' :: after')
    (hlt : before'.length < before.length) : Closes after' := by
  rcases List.append_eq_append_iff.1 hsame with ⟨more, rfl, -⟩ | ⟨more, rfl, hafter⟩
  · rw [List.length_append] at hlt
    omega
  · cases more with
    | nil =>
      rw [List.append_nil] at hlt
      exact absurd hlt (Nat.lt_irrefl _)
    | cons c inside =>
      rw [List.cons_append] at hafter
      obtain ⟨rfl, rfl⟩ := List.cons.inj hafter
      exact h.closes.append _

end Text

open Text

/-- A blank text has no brackets. -/
theorem balanced_of_blank {text : List Char} (h : text.all isBlank = true) : Balanced text := by
  have hopen := count_of_blank '<' rfl (List.all_eq_true.1 h)
  have hclose := count_of_blank '>' rfl (List.all_eq_true.1 h)
  refine ⟨fun before hbefore => ?_, hopen.trans hclose.symm⟩
  have hle := hbefore.sublist.count_le '>'
  omega

/-- A text that does not balance is refused where the imbalance is found. -/
theorem splitArguments_of_error {text : String} {imbalance : Imbalance} {position : Nat}
    (h : ¬ Balanced text.toList)
    (hread : segments 0 0 0 text.toList = .error (imbalance, position)) :
    splitArguments text = .error ⟨imbalance, text, position⟩ := by
  rw [splitArguments, if_neg fun hblank => h (balanced_of_blank hblank), hread]

/-- A text that balances is split. -/
theorem splitArguments_of_balanced {text : String} (h : Balanced text.toList) :
    ∃ segments, Divides segments text.toList ∧ splitArguments text =
      .ok (if text.toList.all isBlank then []
        else segments.map fun segment => String.ofList (trim segment)) := by
  obtain ⟨found, hread, hdivides⟩ := segments_of_balanced h
  refine ⟨found, hdivides, ?_⟩
  rw [splitArguments, hread]
  split <;> rfl

/-- A text can be split exactly if its brackets balance. -/
theorem splitArguments_ok_iff {text : String} :
    (∃ arguments, splitArguments text = .ok arguments) ↔ Balanced text.toList := by
  constructor
  · rintro ⟨arguments, hsplit⟩
    by_contra hbalanced
    by_cases hnested : Nested text.toList
    · obtain ⟨before, after, -, -, -, hread⟩ := segments_of_nested hnested hbalanced
      rw [splitArguments_of_error hbalanced hread] at hsplit
      cases hsplit
    · obtain ⟨before, after, -, -, hread⟩ := segments_of_not_nested hnested
      rw [splitArguments_of_error hbalanced hread] at hsplit
      cases hsplit
  · intro h
    obtain ⟨segments, -, hsplit⟩ := splitArguments_of_balanced h
    exact ⟨_, hsplit⟩

/-- A text can be split exactly if its brackets balance. Then a blank text has no arguments, and any
other text has as its arguments the segments between its top-level commas, without the blanks around
them. If some `>` closes nothing, the split fails at the first such `>`. If otherwise the brackets
do not balance, it fails at the first `<` that nothing closes, which stands inside no other
bracket. -/
theorem splitArguments_exact (text : String) :
    ((∃ arguments, splitArguments text = .ok arguments) ↔ Balanced text.toList) ∧
    (∀ arguments, splitArguments text = .ok arguments →
      (text.toList.all isBlank = true → arguments = []) ∧
      (text.toList.all isBlank = false → ∃ segments, Divides segments text.toList ∧
        arguments = segments.map fun segment => String.ofList (trim segment))) ∧
    (¬ Nested text.toList → ∃ before after, text.toList = before ++ '>' :: after ∧
      Nested before ∧ ¬ Nested (before ++ ['>']) ∧
      splitArguments text = .error ⟨.unmatched, text, byteLength before⟩) ∧
    (Nested text.toList → ¬ Balanced text.toList →
      ∃ before after, text.toList = before ++ '<' :: after ∧ ¬ Closes after ∧
        (∀ before' after', text.toList = before' ++ '<' :: after' →
          before'.length < before.length → Closes after') ∧
        Balanced before ∧ splitArguments text = .error ⟨.unclosed, text, byteLength before⟩) := by
  refine ⟨splitArguments_ok_iff, fun arguments hsplit => ?_, fun hnested => ?_,
    fun hnested hbalanced => ?_⟩
  · obtain ⟨segments, hdivides, hsplit'⟩ :=
      splitArguments_of_balanced (splitArguments_ok_iff.1 ⟨arguments, hsplit⟩)
    obtain rfl := Except.ok.inj (hsplit.symm.trans hsplit')
    exact ⟨fun hblank => if_pos hblank, fun hblank => ⟨segments, hdivides, by
      rw [hblank, if_neg Bool.false_ne_true]⟩⟩
  · obtain ⟨before, after, htext, hbefore, hread⟩ := segments_of_not_nested hnested
    exact ⟨before, after, htext, hbefore.nested, hbefore.not_nested,
      splitArguments_of_error (fun h => hnested h.nested) hread⟩
  · obtain ⟨before, after, htext, hbefore, hafter, hread⟩ := segments_of_nested hnested hbalanced
    refine ⟨before, after, htext, hafter.not_closes, fun before' after' htext' hlt => ?_, hbefore,
      splitArguments_of_error hbalanced hread⟩
    exact hbefore.closes_before (htext.symm.trans htext') hlt

/-- A text with two arguments, one with a `>` that closes nothing after a character of two bytes,
and one with an open bracket between closed ones. -/
theorem splitArguments_exact_brackets :
    (splitArguments " K , M< A,B >" = .ok ["K", "M< A,B >"] ∧
      " K , M< A,B >".toList.all isBlank = false ∧
      ∃ segments, Divides segments " K , M< A,B >".toList ∧
        ["K", "M< A,B >"] = segments.map fun segment => String.ofList (trim segment)) ∧
    (¬ Nested "é>,B".toList ∧ ∃ before after, "é>,B".toList = before ++ '>' :: after ∧
      Nested before ∧ ¬ Nested (before ++ ['>']) ∧
      splitArguments "é>,B" = .error ⟨.unmatched, "é>,B", byteLength before⟩) ∧
    (Nested "A<B>,C<D<E>".toList ∧ ¬ Balanced "A<B>,C<D<E>".toList ∧
      ∃ before after, "A<B>,C<D<E>".toList = before ++ '<' :: after ∧ ¬ Closes after ∧
        (∀ before' after', "A<B>,C<D<E>".toList = before' ++ '<' :: after' →
          before'.length < before.length → Closes after') ∧
        Balanced before ∧
        splitArguments "A<B>,C<D<E>" = .error ⟨.unclosed, "A<B>,C<D<E>", byteLength before⟩) := by
  have hsplit : splitArguments " K , M< A,B >" = .ok ["K", "M< A,B >"] := by decide +kernel
  have hblank : " K , M< A,B >".toList.all isBlank = false := by decide +kernel
  have hnested : ¬ Nested "é>,B".toList := by decide +kernel
  have hopen : Nested "A<B>,C<D<E>".toList := by decide +kernel
  have hbalanced : ¬ Balanced "A<B>,C<D<E>".toList := by decide +kernel
  exact ⟨⟨hsplit, hblank, ((splitArguments_exact " K , M< A,B >").2.1 _ hsplit).2 hblank⟩,
    ⟨hnested, (splitArguments_exact "é>,B").2.2.1 hnested⟩,
    hopen, hbalanced, (splitArguments_exact "A<B>,C<D<E>").2.2.2 hopen hbalanced⟩

/-- Offsets count bytes, and the outermost of the open brackets is the one that is reported. -/
example : splitArguments "é>,B" = .error ⟨.unmatched, "é>,B", 2⟩ ∧
    splitArguments "A<B>,C<D<E>" = .error ⟨.unclosed, "A<B>,C<D<E>", 6⟩ := by
  decide +kernel

end NominalSubtyping
