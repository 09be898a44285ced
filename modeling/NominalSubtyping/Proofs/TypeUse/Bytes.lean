import NominalSubtyping.Proofs.TypeUse.Text

/-!
# Reading byte by byte

Offsets count bytes, and a text can be *cut* at a byte offset only where one of its characters
begins or where it ends. A cut inside a character or beyond the end is impossible, and so is a slice
whose ends are the wrong way round.

The reading of type uses and of argument lists is described here once more, this time as it goes
along the bytes of a text: offsets are found and counted byte by byte, and every part is cut out at
its offsets, which may be impossible. It never is. The two brackets and the comma are single bytes
that occur in no other character, so that there is a character on either side of them, and what is
cut out are the parts that are read character by character.

## Main definitions

* `Text.cut`, `Text.slice` : a text at one or between two byte offsets, if it can be cut there.
* `TypeUse.parseBytes` : a text is split at its outermost brackets.
* `Arguments.scanBytes`, `splitArgumentBytes` : an argument text is split at its top-level commas.

## Main results

* `Text.cut_eq_some_iff` : where a text can be cut.
* `TypeUse.parseBytes_eq`, `splitArgumentBytes_eq` : no cut is impossible, and nothing else is read.
-/

namespace NominalSubtyping

/-! ### Cutting texts -/

namespace Text

/-- The bytes of a text in UTF-8. -/
def bytes (text : List Char) : List UInt8 :=
  text.flatMap String.utf8EncodeChar

/-- The two parts of a text before and after a byte offset, if the text can be cut there. -/
def cut : Nat → List Char → Option (List Char × List Char)
  | 0, text => some ([], text)
  | _ + 1, [] => none
  | offset + 1, c :: text =>
    if c.utf8Size ≤ offset + 1 then
      (cut (offset + 1 - c.utf8Size) text).map fun (before, after) => (c :: before, after)
    else none

/-- The part of a text between two byte offsets, if the text can be cut there. -/
def slice (start stop : Nat) (text : List Char) : Option (List Char) :=
  if start ≤ stop then do
    let (_, rest) ← cut start text
    let (part, _) ← cut (stop - start) rest
    return part
  else none

theorem byteLength_eq_zero_iff {text : List Char} : byteLength text = 0 ↔ text = [] := by
  cases text with
  | nil => exact ⟨fun _ => rfl, fun _ => rfl⟩
  | cons c text =>
    have hpos := c.utf8Size_pos
    rw [byteLength]
    exact ⟨fun h => (by omega), fun h => (by cases h)⟩

theorem cut_zero (text : List Char) : cut 0 text = some ([], text) := by
  rw [cut]

/-- A text can be cut at an offset exactly if it has a first part of that many bytes. -/
theorem cut_eq_some_iff (text : List Char) : ∀ {offset : Nat} {before after : List Char},
    cut offset text = some (before, after) ↔
      text = before ++ after ∧ byteLength before = offset := by
  have hzero (text before after : List Char) : cut 0 text = some (before, after) ↔
      text = before ++ after ∧ byteLength before = 0 := by
    rw [cut_zero, byteLength_eq_zero_iff, Option.some_inj, Prod.mk.injEq]
    constructor
    · rintro ⟨rfl, rfl⟩
      exact ⟨rfl, rfl⟩
    · rintro ⟨rfl, rfl⟩
      exact ⟨rfl, rfl⟩
  induction text with
  | nil =>
    intro offset before after
    cases offset with
    | zero => exact hzero [] before after
    | succ offset =>
      rw [cut]
      refine ⟨fun h => (by cases h), ?_⟩
      rintro ⟨hparts, hlength⟩
      rw [(List.append_eq_nil_iff.1 hparts.symm).1] at hlength
      cases hlength
  | cons c text ih =>
    intro offset before after
    cases offset with
    | zero => exact hzero (c :: text) before after
    | succ offset =>
      rw [cut]
      constructor
      · intro h
        split at h
        · obtain ⟨⟨first, rest⟩, hcut, hpair⟩ := Option.map_eq_some_iff.1 h
          obtain ⟨rfl, rfl⟩ := Prod.mk.inj hpair
          obtain ⟨rfl, hlength⟩ := ih.1 hcut
          refine ⟨rfl, ?_⟩
          rw [byteLength, hlength]
          omega
        · cases h
      · rintro ⟨hparts, hlength⟩
        cases before with
        | nil => cases hlength
        | cons d before =>
          rw [List.cons_append] at hparts
          obtain ⟨rfl, rfl⟩ := List.cons.inj hparts
          rw [byteLength] at hlength
          have hcut : cut (offset + 1 - c.utf8Size) (before ++ after) = some (before, after) :=
            ih.2 ⟨rfl, by omega⟩
          rw [if_pos (by omega), hcut]
          rfl

/-- The part between two parts of a text is a slice of it. -/
theorem slice_append (before part after : List Char) :
    slice (byteLength before) (byteLength (before ++ part)) (before ++ part ++ after) =
      some part := by
  have hstart : cut (byteLength before) (before ++ part ++ after) = some (before, part ++ after) :=
    (cut_eq_some_iff _).2 ⟨List.append_assoc .., rfl⟩
  have hstop : cut (byteLength part) (part ++ after) = some (part, after) :=
    (cut_eq_some_iff _).2 ⟨rfl, rfl⟩
  rw [slice, byteLength_append, if_pos (Nat.le_add_right _ _), Nat.add_sub_cancel_left, hstart]
  dsimp only [bind, Option.bind]
  rw [hstop]
  rfl

/-! ### Marks -/

/-- A byte of a character is the character itself, or none of the first 128 bytes. -/
theorem toNat_of_mem_utf8EncodeChar {byte : UInt8} {c : Char}
    (h : byte ∈ String.utf8EncodeChar c) : byte.toNat = c.toNat ∨ 128 ≤ byte.toNat := by
  have hvalue : c.val.toNat = c.toNat := rfl
  rw [String.utf8EncodeChar, hvalue] at h
  split at h
  · rw [List.mem_singleton] at h
    subst h
    left
    simp
    omega
  · right
    split at h
    · simp only [List.mem_cons, List.not_mem_nil, or_false] at h
      rcases h with rfl | rfl <;> simp <;> omega
    · split at h
      · simp only [List.mem_cons, List.not_mem_nil, or_false] at h
        rcases h with rfl | rfl | rfl <;> simp <;> omega
      · simp only [List.mem_cons, List.not_mem_nil, or_false] at h
        rcases h with rfl | rfl | rfl | rfl <;> simp <;> omega

/-- A mark, which is a single byte, is no byte of another character. -/
theorem ne_toUInt8_of_mem {mark c : Char} {byte : UInt8} (hmark : mark.toNat < 128) (hne : c ≠ mark)
    (h : byte ∈ String.utf8EncodeChar c) : byte ≠ mark.toUInt8 := by
  rintro rfl
  have hbyte : mark.toUInt8.toNat = mark.toNat :=
    Nat.mod_eq_of_lt (Nat.lt_trans hmark (by decide))
  rcases toNat_of_mem_utf8EncodeChar h with hsame | hlarge
  · rw [hbyte] at hsame
    exact hne (Char.toNat_inj.1 hsame).symm
  · omega

theorem bytes_cons (c : Char) (text : List Char) :
    bytes (c :: text) = String.utf8EncodeChar c ++ bytes text :=
  List.flatMap_cons

end Text

/-! ### Argument lists -/

namespace Arguments

open Text

/-- Goes along the bytes of an argument text from byte offset `offset` on, inside `depth` open
brackets, the outermost of which stands at `outer`. The segment under way begins at `start`; each
segment is cut out of the text when its end is found. -/
def scanBytes (text : List Char) (depth outer start offset : Nat) :
    List UInt8 → Option (Except (Imbalance × Nat) (List (List Char)))
  | [] =>
    if depth = 0 then (slice start (byteLength text) text).map fun segment => .ok [segment]
    else some (.error (.unclosed, outer))
  | byte :: rest =>
    if byte = '<'.toUInt8 then
      scanBytes text (depth + 1) (if depth = 0 then offset else outer) start (offset + 1) rest
    else if byte = '>'.toUInt8 then
      if depth = 0 then some (.error (.unmatched, offset))
      else scanBytes text (depth - 1) outer start (offset + 1) rest
    else if byte = ','.toUInt8 ∧ depth = 0 then do
      let segment ← slice start offset text
      let segments ← scanBytes text depth outer (offset + 1) (offset + 1) rest
      return segments.map (segment :: ·)
    else scanBytes text depth outer start (offset + 1) rest

variable {text : List Char} {depth outer start : Nat}

/-- Bytes that are no marks are passed over. -/
theorem scanBytes_append {passed : List UInt8} (rest : List UInt8)
    (hpassed : ∀ byte ∈ passed, byte ≠ '<'.toUInt8 ∧ byte ≠ '>'.toUInt8 ∧
      ¬ (byte = ','.toUInt8 ∧ depth = 0)) : ∀ offset,
    scanBytes text depth outer start offset (passed ++ rest) =
      scanBytes text depth outer start (offset + passed.length) rest := by
  induction passed with
  | nil => exact fun offset => rfl
  | cons byte passed ih =>
    intro offset
    obtain ⟨hopen, hclose, hcomma⟩ := hpassed byte List.mem_cons_self
    rw [List.cons_append, scanBytes, if_neg hopen, if_neg hclose, if_neg hcomma,
      ih fun byte hbyte => hpassed byte (List.mem_cons_of_mem _ hbyte)]
    rw [List.length_cons, Nat.add_assoc, Nat.add_comm 1]

theorem foldr_extend (part segment : List Char) (segments : List (List Char)) :
    part.foldr extend (segment :: segments) = (part ++ segment) :: segments := by
  induction part with
  | nil => rfl
  | cons c part ih => rw [List.foldr_cons, ih, extend, List.cons_append]

/-- A character that is passed belongs to the segment under way. -/
theorem map_extend (result : Except (Imbalance × Nat) (List (List Char))) (part : List Char)
    (c : Char) : (result.map (extend c)).map (part.foldr extend) =
      result.map ((part ++ [c]).foldr extend) := by
  cases result with
  | error imbalance => rfl
  | ok segments =>
    rw [Except.map, Except.map, Except.map, List.foldr_append, List.foldr_cons, List.foldr_nil]

/-- What is found byte by byte are the segments of the characters; `part` is what has been passed of
the segment under way. -/
theorem scanBytes_eq (after : List Char) : ∀ (before part : List Char) (depth outer : Nat),
    text = before ++ part ++ after →
    scanBytes text depth outer (byteLength before) (byteLength (before ++ part)) (bytes after) =
      some ((segments depth outer (byteLength (before ++ part)) after).map
        (part.foldr extend)) := by
  induction after with
  | nil =>
    intro before part depth outer htext
    have hlast := slice_append before part []
    rw [List.append_nil] at htext hlast
    subst htext
    rw [bytes, List.flatMap_nil, scanBytes, segments]
    by_cases hdepth : depth = 0
    · rw [if_pos hdepth, if_pos hdepth, hlast, Except.map, foldr_extend, List.append_nil]
      rfl
    · rw [if_neg hdepth, if_neg hdepth]
      rfl
  | cons c after ih =>
    intro before part depth outer htext
    have hpart : text = before ++ (part ++ [c]) ++ after := by
      rw [htext]
      simp
    have hsize : byteLength (before ++ (part ++ [c])) =
        byteLength (before ++ part) + c.utf8Size := by
      rw [← List.append_assoc, byteLength_append _ [c]]
      rfl
    -- The segment under way takes up every character, except a comma outside all brackets.
    have hnext (depth outer : Nat) := ih before (part ++ [c]) depth outer hpart
    rw [hsize] at hnext
    rw [segments, bytes_cons]
    by_cases hopen : c = '<'
    · subst hopen
      have hbyte : String.utf8EncodeChar '<' = ['<'.toUInt8] := rfl
      rw [if_pos rfl, hbyte, List.singleton_append, scanBytes, if_pos rfl, map_extend]
      exact hnext _ _
    rw [if_neg hopen]
    by_cases hclose : c = '>'
    · subst hclose
      have hbyte : String.utf8EncodeChar '>' = ['>'.toUInt8] := rfl
      rw [if_pos rfl, hbyte, List.singleton_append, scanBytes, if_neg (by decide), if_pos rfl]
      by_cases hdepth : depth = 0
      · rw [if_pos hdepth, if_pos hdepth]
        rfl
      · rw [if_neg hdepth, if_neg hdepth, map_extend]
        exact hnext _ _
    rw [if_neg hclose]
    by_cases hcomma : c = ',' ∧ depth = 0
    · obtain ⟨rfl, rfl⟩ := hcomma
      have hbyte : String.utf8EncodeChar ',' = [','.toUInt8] := rfl
      have hsegment := slice_append before part (',' :: after)
      have hrest := ih (before ++ (part ++ [','])) [] 0 outer (by rw [List.append_nil, hpart])
      rw [List.append_nil, hsize] at hrest
      rw [← htext] at hsegment
      rw [if_pos ⟨rfl, rfl⟩, hbyte, List.singleton_append, scanBytes, if_neg (by decide),
        if_neg (by decide), if_pos ⟨rfl, rfl⟩, hsegment]
      refine (congrArg (Option.bind · _) hrest).trans ?_
      cases segments 0 outer (byteLength (before ++ part) + ','.utf8Size) after with
      | error imbalance => rfl
      | ok segments =>
        simp only [Except.map, foldr_extend, List.append_nil]
        rfl
    · have hpassed : ∀ byte ∈ String.utf8EncodeChar c, byte ≠ '<'.toUInt8 ∧ byte ≠ '>'.toUInt8 ∧
          ¬ (byte = ','.toUInt8 ∧ depth = 0) := by
        intro byte hbyte
        refine ⟨ne_toUInt8_of_mem (by decide) hopen hbyte,
          ne_toUInt8_of_mem (by decide) hclose hbyte, fun hmark => ?_⟩
        exact ne_toUInt8_of_mem (by decide) (fun hc => hcomma ⟨hc, hmark.2⟩) hbyte hmark.1
      rw [if_neg hcomma, scanBytes_append _ hpassed, String.length_utf8EncodeChar, map_extend]
      exact hnext _ _

end Arguments

open Text in
/-- The top-level arguments of an argument text, read byte by byte. -/
def splitArgumentBytes (text : String) : Option (Except BracketError (List String)) :=
  if text.toList.all isBlank then
    some (.ok [])
  else
    (Arguments.scanBytes text.toList 0 0 0 0 (bytes text.toList)).map fun
      | .ok segments => .ok (segments.map fun segment => String.ofList (trim segment))
      | .error (imbalance, position) => .error ⟨imbalance, text, position⟩

/-- Every argument can be cut out, and the arguments are the same as when they are read character by
character. -/
theorem splitArgumentBytes_eq (text : String) :
    splitArgumentBytes text = some (splitArguments text) := by
  have hscan : Arguments.scanBytes text.toList 0 0 0 0 (Text.bytes text.toList) =
      some (Arguments.segments 0 0 0 text.toList) := by
    refine (Arguments.scanBytes_eq text.toList [] [] 0 0 rfl).trans (congrArg some ?_)
    exact congrFun Except.map_id _
  rw [splitArgumentBytes, splitArguments, hscan]
  split
  · rfl
  · rcases Arguments.segments 0 0 0 text.toList with ⟨imbalance, position⟩ | segments
    · rfl
    · rfl

/-! ### Type uses -/

namespace TypeUse

open Text

/-- The byte offset of the first occurrence of `mark`. -/
def find? (mark : Char) (text : List Char) : Option Nat :=
  if mark ∈ text then some (byteLength (text.takeWhile (· ≠ mark))) else none

/-- The byte offset of the last occurrence of `mark`. -/
def findLast? (mark : Char) (text : List Char) : Option Nat :=
  (beforeLast mark text).map byteLength

/-- Splits a text at the byte offsets of its first `<` and its last `>`. -/
def parseBytes (text : String) : Option (Except BracketError TypeUse) :=
  match find? '<' text.toList with
  | none => some (.ok ⟨text, ""⟩)
  | some first =>
    match findLast? '>' text.toList with
    | none => some (.error ⟨.unclosed, text, first⟩)
    | some last =>
      if first < last then do
        let base ← slice 0 first text.toList
        let arguments ← slice (first + 1) last text.toList
        return .ok ⟨String.ofList base, String.ofList arguments⟩
      else some (.error ⟨.unclosed, text, first⟩)

theorem eq_append_of_beforeLast {mark : Char} {text before : List Char}
    (h : beforeLast mark text = some before) : ∃ after, text = before ++ mark :: after := by
  induction text generalizing before with
  | nil => cases h
  | cons c text ih =>
    rw [beforeLast] at h
    cases hrest : beforeLast mark text with
    | some rest =>
      rw [hrest] at h
      obtain rfl := Option.some.inj h
      obtain ⟨after, rfl⟩ := ih hrest
      exact ⟨after, rfl⟩
    | none =>
      rw [hrest] at h
      dsimp only at h
      split at h
      · obtain rfl := Option.some.inj h
        exact ⟨text, by rw [‹c = mark›]; rfl⟩
      · cases h

/-- The last `>` of a text with a `<` stands after that `<`, if there is one after it. -/
theorem beforeLast_bracket (base rest : List Char) :
    beforeLast '>' (base ++ '<' :: rest) =
      ((beforeLast '>' rest).map (base ++ ['<'] ++ ·)).or (beforeLast '>' base) := by
  induction base with
  | nil =>
    simp only [List.nil_append, beforeLast]
    cases beforeLast '>' rest <;> rfl
  | cons c base ih =>
    rw [List.cons_append, beforeLast, ih]
    cases beforeLast '>' rest <;> rfl

theorem exists_dropWhile_eq {text : List Char} (h : '<' ∈ text) :
    ∃ rest, text.dropWhile (· ≠ '<') = '<' :: rest := by
  induction text with
  | nil => cases h
  | cons c text ih =>
    by_cases hc : c = '<'
    · subst hc
      exact ⟨text, rfl⟩
    · rw [List.dropWhile_cons, if_pos (decide_eq_true hc)]
      exact ih ((List.mem_cons.1 h).resolve_left (Ne.symm hc))

/-- Both parts can be cut out, and they are the same as when the text is read character by
character. -/
theorem parseBytes_eq (text : String) : parseBytes text = some (parse text) := by
  rw [parseBytes, find?]
  by_cases hopen : '<' ∈ text.toList
  · obtain ⟨rest, hdrop⟩ := exists_dropWhile_eq hopen
    have htext := (List.takeWhile_append_dropWhile (p := (· ≠ '<')) (l := text.toList)).symm
    rw [hdrop] at htext
    rw [if_pos hopen, parse, hdrop]
    generalize text.toList.takeWhile (· ≠ '<') = base at htext
    dsimp only
    cases hrest : beforeLast '>' rest with
    | some arguments =>
      have hfind : findLast? '>' text.toList = some (byteLength (base ++ ['<'] ++ arguments)) := by
        rw [findLast?, htext, beforeLast_bracket, hrest]
        rfl
      obtain ⟨after, rfl⟩ := eq_append_of_beforeLast hrest
      have hwhole : text.toList = base ++ ['<'] ++ arguments ++ '>' :: after := by
        rw [htext]
        simp
      have hbase := slice_append [] base ('<' :: (arguments ++ '>' :: after))
      have harguments := slice_append (base ++ ['<']) arguments ('>' :: after)
      have hfirst : byteLength (base ++ ['<']) = byteLength base + 1 := byteLength_append ..
      have hlt : byteLength base < byteLength (base ++ ['<'] ++ arguments) := by
        rw [byteLength_append, hfirst]
        omega
      rw [List.nil_append, ← htext] at hbase
      rw [hfirst, ← hwhole] at harguments
      rw [hfind]
      dsimp only
      rw [if_pos hlt, harguments]
      exact congrArg (Option.bind · _) hbase
    | none =>
      have hbefore : ∀ {before}, beforeLast '>' base = some before →
          ¬ byteLength base < byteLength before := by
        intro before hbase
        obtain ⟨after, rfl⟩ := eq_append_of_beforeLast hbase
        rw [byteLength_append]
        omega
      have hfind : findLast? '>' text.toList = (beforeLast '>' base).map byteLength := by
        rw [findLast?, htext, beforeLast_bracket, hrest]
        rfl
      rw [hfind]
      cases hbase : beforeLast '>' base with
      | none => rfl
      | some before => exact if_neg (hbefore hbase)
  · rw [if_neg hopen, parse_raw hopen]

end TypeUse

end NominalSubtyping
