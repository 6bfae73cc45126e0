import LoxLang.Source.Scan
import Mathlib.Data.List.ReduceOption

/-!
# Scanning step by step

A cursor gives the items of a source one for each call, and what is left of them at any time. It
keeps no more than a place: what is left of the source, and the line reached. So a call is read off
the remaining items (`Cursor.remaining_next`): it takes the first of them, or there is none, and
then the cursor is at the end of the source and stays there (`Cursor.take_of_next_eq_none`).

The remaining items are not defined by calls, but calls give no others: until one of them gives
nothing they give all but the end-of-file token (`Cursor.collect_append`). Hence it makes no
difference how many items are taken one by one before the others are taken together
(`Cursor.take_start`).
-/

namespace LoxLang.Source.Cursor

/-! ## One call -/

/-- A call takes the first of the remaining items, if there is one, and leaves the others. -/
theorem remaining_next (cursor : Cursor) :
    cursor.remaining = cursor.next.1.toList ++ cursor.next.2.remaining := by
  fun_induction next cursor with
  | case1 line => rfl
  | case2 line c rest piece behind item gives =>
    rw [remaining, split_cons, items, gives]
    rfl
  | case3 line c rest piece behind none ih =>
    rw [← ih, remaining, split_cons, items, none]
    rfl

/-- A call that gives no item ends at the end of the source. -/
theorem rest_of_next_eq_none {cursor behind : Cursor} (silent : cursor.next = (none, behind)) :
    behind.rest = [] := by
  fun_induction next cursor with
  | case1 =>
    cases silent
    rfl
  | case2 => cases silent
  | case3 _ _ _ _ _ _ ih => exact ih silent

/-- At the end of the source a call gives nothing and moves nothing. -/
theorem next_of_rest_eq_nil {cursor : Cursor} (ended : cursor.rest = []) :
    cursor.next = (none, cursor) := by
  obtain ⟨line, rest⟩ := cursor
  cases ended
  rw [next]

/-- At the end of the source only the end-of-file token remains. -/
theorem remaining_of_rest_eq_nil {cursor : Cursor} (ended : cursor.rest = []) :
    cursor.remaining = [.ok (.endOfFile cursor.line)] := by
  rw [remaining, ended, split_nil]
  rfl

/-- A call that gives nothing leaves **only the end-of-file token**. -/
theorem remaining_of_next_eq_none {cursor behind : Cursor} (silent : cursor.next = (none, behind)) :
    behind.remaining = [.ok (.endOfFile behind.line)] :=
  remaining_of_rest_eq_nil (rest_of_next_eq_none silent)

/-- A call that gives an item moves on in the source. -/
theorem length_next_lt {cursor behind : Cursor} {item : Item}
    (gives : cursor.next = (some item, behind)) : behind.rest.length < cursor.rest.length := by
  fun_induction next cursor with
  | case1 => cases gives
  | case2 line c rest =>
    obtain ⟨-, rfl⟩ := Prod.mk.inj gives
    exact length_splitFirst_lt c rest
  | case3 line c rest piece _ _ ih => exact Nat.lt_trans (ih gives) (length_splitFirst_lt c rest)

/-- A place **within** a source: what is left is an end of the source, and the line is one behind
the line breaks in front of it. -/
def Within (source : String) (cursor : Cursor) : Prop :=
  ∃ before, source.toList = before ++ cursor.rest ∧ cursor.line = 1 + before.count '\n'

theorem within_start (source : String) : (start source).Within source :=
  ⟨[], rfl, rfl⟩

/-- A call stays within the source. -/
theorem Within.next {source : String} {cursor : Cursor} (within : cursor.Within source) :
    cursor.next.2.Within source := by
  have moves {line : Nat} {c : Char} {rest : List Char}
      (within : (⟨line, c :: rest⟩ : Cursor).Within source) :
      Within source ⟨line + (splitFirst c rest).1.lineBreaks, (splitFirst c rest).2⟩ := by
    obtain ⟨before, whole, reached⟩ := within
    refine ⟨before ++ (splitFirst c rest).1.text, ?_, ?_⟩
    · rw [whole, List.append_assoc, splitFirst_text]
    · rw [List.count_append, ← Nat.add_assoc, ← reached]
      rfl
  fun_induction Cursor.next cursor with
  | case1 => exact within
  | case2 => exact moves within
  | case3 _ _ _ _ _ _ ih => exact ih (moves within)

/-! ## All calls -/

/-- The items of all calls up to the first that gives nothing, and the place behind that one. -/
def collect (cursor : Cursor) : List Item × Cursor :=
  match _ : cursor.next with
  | (none, behind) => ([], behind)
  | (some item, behind) => (item :: (collect behind).1, (collect behind).2)
termination_by cursor.rest.length
decreasing_by all_goals exact length_next_lt ‹_›

/-- The remaining items are those of all calls, and the end-of-file token. -/
theorem collect_append (cursor : Cursor) :
    cursor.collect.1 ++ [.ok (.endOfFile cursor.collect.2.line)] = cursor.remaining := by
  fun_induction collect cursor with
  | case1 cursor behind given =>
    rw [remaining_next, given, remaining_of_next_eq_none given]
    rfl
  | case2 cursor item behind given ih =>
    rw [remaining_next, given, ← ih]
    rfl

/-! ## Several calls -/

theorem take_succ (count : Nat) (cursor : Cursor) :
    cursor.take (count + 1) =
      (cursor.next.1 :: (cursor.next.2.take count).1, (cursor.next.2.take count).2) := rfl

/-- Calls take the first of the remaining items and leave the others. -/
theorem remaining_take (count : Nat) (cursor : Cursor) :
    (cursor.take count).1.reduceOption ++ (cursor.take count).2.remaining = cursor.remaining := by
  induction count generalizing cursor with
  | zero => rfl
  | succ count ih =>
    have first : (cursor.take (count + 1)).1.reduceOption =
        cursor.next.1.toList ++ (cursor.next.2.take count).1.reduceOption := by
      rw [take_succ]
      cases cursor.next.1 <;> rfl
    rw [first, take_succ, cursor.remaining_next, ← ih cursor.next.2, List.append_assoc]

theorem Within.take {source : String} {cursor : Cursor} (within : cursor.Within source)
    (count : Nat) : (cursor.take count).2.Within source := by
  induction count generalizing cursor with
  | zero => exact within
  | succ count ih => exact ih within.next

/-- At the end of the source all calls give nothing. -/
theorem take_of_rest_eq_nil {cursor : Cursor} (ended : cursor.rest = []) (count : Nat) :
    cursor.take count = (List.replicate count none, cursor) := by
  induction count with
  | zero => rfl
  | succ count ih =>
    rw [take_succ, next_of_rest_eq_nil ended, ih]
    rfl

/-- After a call that gave nothing, no call gives anything. -/
theorem take_of_next_eq_none {cursor behind : Cursor} (silent : cursor.next = (none, behind))
    (count : Nat) : behind.take count = (List.replicate count none, behind) :=
  take_of_rest_eq_nil (rest_of_next_eq_none silent) count

/-- Scanning **step by step** and all at once agree. After any number of calls on a cursor at the
beginning of a source, the items that they gave and those that remain are together the items of the
source: the same tokens and errors, on the same lines, and the end-of-file token. Those that remain
are the items of all further calls, and that token. The cursor is then at a place of the source, on
the line that belongs to it. And once a call has given nothing, only the token remains, and all
later calls give nothing and move nothing. -/
theorem take_start (source : String) (count : Nat) :
    let taken : List (Option Item) × Cursor := (start source).take count
    taken.1.reduceOption ++ taken.2.remaining = scan source ∧
      taken.2.remaining = taken.2.collect.1 ++ [.ok (.endOfFile taken.2.collect.2.line)] ∧
      (∃ before, source.toList = before ++ taken.2.rest ∧
        taken.2.line = 1 + before.count '\n') ∧
      ∀ behind, taken.2.next = (none, behind) →
        behind.remaining = [.ok (.endOfFile behind.line)] ∧
        ∀ more, behind.take more = (List.replicate more none, behind) :=
  ⟨remaining_take count (start source), (collect_append _).symm,
    (within_start source).take count, fun _ silent =>
      ⟨remaining_of_next_eq_none silent, take_of_next_eq_none silent⟩⟩

/-- Behind a name only a comment is left: the next call gives nothing, and so do three more. What
remains is the end of the source, on the line behind the comment. -/
theorem take_start_comment :
    let last := ((start "a // b\n").take 1).2
    last.next = (none, last.next.2) ∧ last.next.2.line = 2 ∧
      last.remaining = [.ok (.endOfFile 2)] ∧
      last.next.2.remaining = [.ok (.endOfFile 2)] ∧
      last.next.2.take 3 = ([none, none, none], last.next.2) := by
  intro last
  have silent : last.next = (none, last.next.2) := Prod.ext (by decide +kernel) rfl
  have line : last.next.2.line = 2 := by decide +kernel
  obtain ⟨ended, still⟩ := (take_start "a // b\n" 1).2.2.2 _ silent
  rw [line] at ended
  exact ⟨silent, line, by decide +kernel, ended, still 3⟩

end LoxLang.Source.Cursor
