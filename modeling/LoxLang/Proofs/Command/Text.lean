import Mathlib.Logic.ExistsUnique
import LoxLang.Command.Program
import LoxLang.Proofs.Session.Unlimited

/-!
# Texts and their lines as bytes

A file is text exactly if its bytes are those of some text, and then of just one
(`fileText_eq_ok_iff`). Lines are told by their form: a **body** without a line break and then the
break, which only the last line may lack (`AreLines`). Every sequence has just one cut into lines,
which for bytes is what the prompt reads (`lines_eq_iff`).

The byte of the line break occurs in the encoding of no other character. So the lines of a text and
those of its bytes are the same (`lines_utf8`), and there are as many breaks in the one as in the
other (`count_utf8`). Bytes that are no text have a first line that is none
(`exists_line_not_text`).
-/

namespace LoxLang

/-! ## Text as bytes -/

theorem toByteArray_utf8 (text : String) : (utf8 text).toByteArray = text.toByteArray := by
  have spelled : (String.ofList text.toList).toByteArray = text.toList.utf8Encode :=
    String.toByteArray_ofList
  rw [String.ofList_toList] at spelled
  exact spelled.symm

theorem fromUTF8?_toByteArray (text : String) : String.fromUTF8? text.toByteArray = some text := by
  rw [String.fromUTF8?, dif_pos text.isValidUTF8]
  rfl

theorem toByteArray_of_fromUTF8? {bytes : ByteArray} {text : String}
    (decoded : String.fromUTF8? bytes = some text) : bytes = text.toByteArray := by
  rw [String.fromUTF8?] at decoded
  split at decoded
  · cases decoded
    rfl
  · cases decoded

/-- A file is a text exactly if its bytes are those of the text. -/
theorem fileText_eq_ok_iff {file : Except IoError (List UInt8)} {text : String} :
    fileText file = .ok text ↔ file = .ok (utf8 text) := by
  constructor
  · intro read
    match file with
    | .ok bytes =>
      rw [fileText] at read
      split at read
      · rename_i decoded
        cases read
        have same := toByteArray_of_fromUTF8? decoded
        rw [← toByteArray_utf8] at same
        rw [← List.toList_data_toByteArray (l := bytes), same, List.toList_data_toByteArray]
      · cases read
  · rintro rfl
    rw [fileText, toByteArray_utf8, fromUTF8?_toByteArray]

theorem utf8_injective {text text' : String} (same : utf8 text = utf8 text') : text = text' := by
  have read : fileText (.ok (utf8 text)) = .ok text := fileText_eq_ok_iff.mpr rfl
  rw [same, fileText_eq_ok_iff.mpr rfl] at read
  exact (Except.ok.inj read).symm

/-- Bytes are refused exactly if they are those of no text. -/
theorem fileText_eq_notText_iff {bytes : List UInt8} :
    fileText (.ok bytes) = .error .notText ↔ ∀ text, bytes ≠ utf8 text := by
  constructor
  · rintro refused text rfl
    cases refused.symm.trans (fileText_eq_ok_iff.mpr rfl)
  · intro noText
    cases read : fileText (.ok bytes) with
    | ok text => exact absurd (Except.ok.inj (fileText_eq_ok_iff.mp read)) (noText text)
    | error error =>
      rw [fileText] at read
      split at read
      · cases read
      · exact read.symm

theorem utf8_join (texts : List String) : utf8 (String.join texts) = texts.flatMap utf8 := by
  induction texts with
  | nil => rfl
  | cons text rest ih =>
    rw [String.join_cons, List.flatMap_cons, utf8_append, ih]

/-! ## Lines -/

namespace Command

/-- Lines of a sequence: in each a body without a break and then the break. The last may lack the
break if it is not empty. -/
inductive AreLines {α : Type} (br : α) : List (List α) → Prop
  | nil : AreLines br []
  | last {body : List α} (nonempty : body ≠ []) (inside : br ∉ body) : AreLines br [body]
  | cons {body : List α} {ls : List (List α)} (inside : br ∉ body) (later : AreLines br ls) :
      AreLines br ((body ++ [br]) :: ls)

/-- Every sequence is cut into lines. -/
theorem exists_areLines {α : Type} (br : α) (xs : List α) :
    ∃ ls, AreLines br ls ∧ ls.flatten = xs := by
  induction xs with
  | nil => exact ⟨[], .nil, rfl⟩
  | cons x xs ih =>
    -- A break in front is a line of its own, and anything else joins the first line.
    obtain ⟨ls, areLines, rfl⟩ := ih
    by_cases same : x = br
    · have empty : br ∉ ([] : List α) := List.not_mem_nil
      exact ⟨_, .cons empty areLines, by simp [same]⟩
    · have differs : br ≠ x := fun eq => same eq.symm
      cases areLines with
      | nil => exact ⟨[[x]], .last (by simp) (by simpa using differs), rfl⟩
      | @last body _ inside =>
        exact ⟨[x :: body], .last (by simp) (by simp [differs, inside]), by simp⟩
      | @cons body ls inside later =>
        exact ⟨(x :: body ++ [br]) :: ls, .cons (by simp [differs, inside]) later, by simp⟩

/-- An encoding of the elements that keeps the break apart from the others keeps lines. -/
theorem AreLines.encode {α β : Type} {br : α} {code : α → List β} {br' : β}
    (breaks : code br = [br']) (other : ∀ a, a ≠ br → code a ≠ [] ∧ br' ∉ code a)
    {ls : List (List α)} (areLines : AreLines br ls) :
    AreLines br' (ls.map (List.flatMap code)) := by
  have within {body : List α} (inside : br ∉ body) : br' ∉ body.flatMap code := by
    intro mem
    obtain ⟨a, present, coded⟩ := List.mem_flatMap.mp mem
    have differs : a ≠ br := fun eq => inside (eq ▸ present)
    exact (other a differs).2 coded
  induction areLines with
  | nil => exact .nil
  | @last body nonempty inside =>
    refine .last ?_ (within inside)
    obtain ⟨a, rest, rfl⟩ := List.exists_cons_of_ne_nil nonempty
    have differs : a ≠ br := fun eq => inside (eq ▸ List.mem_cons_self)
    rw [List.flatMap_cons]
    exact List.append_ne_nil_of_left_ne_nil (other a differs).1 _
  | @cons body ls inside later ih =>
    rw [List.map_cons, List.flatMap_append, List.flatMap_singleton, breaks]
    exact .cons (within inside) ih

/-! ## Lines of bytes -/

theorem lines_append_break {body : List UInt8} (inside : 10 ∉ body) (rest : List UInt8) :
    lines (body ++ [10] ++ rest) = (body ++ [10]) :: lines rest := by
  induction body with
  | nil => rfl
  | cons byte body ih =>
    obtain ⟨differs, inside⟩ := not_or.mp (mt List.mem_cons.mpr inside)
    rw [List.cons_append, List.cons_append, lines, if_neg (Ne.symm differs), ih inside]

theorem lines_of_no_break {body : List UInt8} (nonempty : body ≠ []) (inside : 10 ∉ body) :
    lines body = [body] := by
  induction body with
  | nil => exact absurd rfl nonempty
  | cons byte body ih =>
    obtain ⟨differs, inside⟩ := not_or.mp (mt List.mem_cons.mpr inside)
    rw [lines, if_neg (Ne.symm differs)]
    cases body with
    | nil => rfl
    | cons next body => rw [ih (by simp) inside]

theorem AreLines.lines {ls : List (List UInt8)} (areLines : AreLines 10 ls) :
    Command.lines ls.flatten = ls := by
  induction areLines with
  | nil => rfl
  | last nonempty inside =>
    rw [List.flatten_singleton]
    exact lines_of_no_break nonempty inside
  | cons inside later ih =>
    rw [List.flatten_cons, lines_append_break inside, ih]

/-- The lines of bytes are the **only cut** of them into lines. -/
theorem lines_eq_iff {bytes : List UInt8} {ls : List (List UInt8)} :
    lines bytes = ls ↔ AreLines 10 ls ∧ ls.flatten = bytes := by
  constructor
  · rintro rfl
    obtain ⟨ls, areLines, rfl⟩ := exists_areLines 10 bytes
    rw [areLines.lines]
    exact ⟨areLines, rfl⟩
  · rintro ⟨areLines, rfl⟩
    exact areLines.lines

/-- A break in front of the rest ends as many lines as there are breaks up to it. -/
theorem length_lines_append_break (body rest : List UInt8) :
    (lines (body ++ 10 :: rest)).length = body.count 10 + 1 + (lines rest).length := by
  induction body with
  | nil => simp [lines, Nat.add_comm]
  | cons byte body ih =>
    by_cases same : byte = 10
    · subst same
      rw [List.cons_append, lines, if_pos rfl, List.length_cons, ih, List.count_cons_self]
      omega
    · rw [List.cons_append, lines, if_neg same, List.count_cons_of_ne same]
      cases later : lines (body ++ 10 :: rest) with
      | nil =>
        rw [later, List.length_nil] at ih
        omega
      | cons line others =>
        rw [later, List.length_cons] at ih
        exact ih

/-! ## Lines of texts -/

/-- No other character has the byte of the line break in its encoding. -/
theorem utf8EncodeChar_other {c : Char} (other : c ≠ '\n') :
    String.utf8EncodeChar c ≠ [] ∧ 10 ∉ String.utf8EncodeChar c := by
  have value : c.val.toNat ≠ 10 := by
    intro same
    exact other (Char.ext (UInt32.toNat_inj.mp same))
  have byte {n : Nat} (bound : n < 256) (differs : n ≠ 10) : ¬ (10 : UInt8) = UInt8.ofNat n := by
    intro same
    have values := congrArg UInt8.toNat same
    rw [UInt8.toNat_ofNat', Nat.mod_eq_of_lt bound] at values
    exact differs values.symm
  unfold String.utf8EncodeChar
  dsimp only
  split
  · refine ⟨List.cons_ne_nil _ _, ?_⟩
    simp only [List.mem_cons, List.not_mem_nil, or_false]
    exact byte (by omega) value
  split
  · refine ⟨List.cons_ne_nil _ _, ?_⟩
    simp only [List.mem_cons, List.not_mem_nil, or_false, not_or]
    exact ⟨byte (by omega) (by omega), byte (by omega) (by omega)⟩
  split
  · refine ⟨List.cons_ne_nil _ _, ?_⟩
    simp only [List.mem_cons, List.not_mem_nil, or_false, not_or]
    exact ⟨byte (by omega) (by omega), byte (by omega) (by omega), byte (by omega) (by omega)⟩
  · refine ⟨List.cons_ne_nil _ _, ?_⟩
    simp only [List.mem_cons, List.not_mem_nil, or_false, not_or]
    exact ⟨byte (by omega) (by omega), byte (by omega) (by omega), byte (by omega) (by omega),
      byte (by omega) (by omega)⟩

/-- The bytes of a text have as many breaks as the text. -/
theorem count_utf8 (text : String) : (utf8 text).count 10 = text.toList.count '\n' := by
  rw [utf8]
  induction text.toList with
  | nil => rfl
  | cons c rest ih =>
    rw [List.flatMap_cons, List.count_append, ih]
    by_cases same : c = '\n'
    · subst same
      rw [List.count_cons_self, Nat.add_comm]
      rfl
    · rw [List.count_cons_of_ne same, List.count_eq_zero.mpr (utf8EncodeChar_other same).2,
        Nat.zero_add]

/-- Lines of a text are lines of its bytes. -/
theorem AreLines.bytes {ls : List String} (areLines : AreLines '\n' (ls.map String.toList)) :
    AreLines 10 (ls.map utf8) := by
  have breaks : String.utf8EncodeChar '\n' = [10] := rfl
  have encoded := areLines.encode breaks fun _ => utf8EncodeChar_other
  rwa [List.map_map] at encoded

/-- The lines of a text are those of its bytes. -/
theorem lines_utf8 {ls : List String} (areLines : AreLines '\n' (ls.map String.toList)) :
    lines (utf8 (String.join ls)) = ls.map utf8 := by
  rw [utf8_join, List.flatMap_def]
  exact areLines.bytes.lines

/-- Every text has just one cut into lines. -/
theorem existsUnique_lines (text : String) :
    ∃! ls : List String, AreLines '\n' (ls.map String.toList) ∧ String.join ls = text := by
  obtain ⟨cut, areLines, whole⟩ := exists_areLines '\n' text.toList
  have same : (cut.map String.ofList).map String.toList = cut := by
    simp [Function.comp_def]
  have spelled : String.join (cut.map String.ofList) = text := by
    rw [← String.toList_inj, String.toList_join, List.flatMap_def, same, whole]
  rw [← same] at areLines
  have bytes := lines_utf8 areLines
  refine ⟨cut.map String.ofList, ⟨areLines, spelled⟩, ?_⟩
  rintro ls ⟨areLines', rfl⟩
  rw [spelled, lines_utf8 areLines'] at bytes
  exact (List.map_inj_right fun _ _ => utf8_injective).mp bytes

/-- Lines that are not all texts have a first that is none. -/
theorem exists_first_not_text (ls : List (List UInt8)) :
    (∃ texts : List String, ls = texts.map utf8) ∨
      ∃ (texts : List String) (bad : List UInt8) (behind : List (List UInt8)),
        ls = texts.map utf8 ++ bad :: behind ∧ ∀ text, bad ≠ utf8 text := by
  induction ls with
  | nil => exact .inl ⟨[], rfl⟩
  | cons line rest ih =>
    by_cases isText : ∃ text, line = utf8 text
    · obtain ⟨text, rfl⟩ := isText
      rcases ih with ⟨texts, rfl⟩ | ⟨texts, bad, behind, rfl, noText⟩
      · exact .inl ⟨text :: texts, rfl⟩
      · exact .inr ⟨text :: texts, bad, behind, rfl, noText⟩
    · exact .inr ⟨[], line, rest, rfl, fun text same => isText ⟨text, same⟩⟩

/-- Bytes that are no text have a first line that is none. -/
theorem exists_line_not_text {bytes : List UInt8} (noText : ∀ text, bytes ≠ utf8 text) :
    ∃ (texts : List String) (bad : List UInt8) (behind : List (List UInt8)),
      lines bytes = texts.map utf8 ++ bad :: behind ∧ ∀ text, bad ≠ utf8 text := by
  refine (exists_first_not_text (lines bytes)).resolve_left ?_
  rintro ⟨texts, all⟩
  have whole := (lines_eq_iff.mp all).2
  rw [← List.flatMap_def, ← utf8_join] at whole
  exact noText _ whole.symm

end Command

end LoxLang
