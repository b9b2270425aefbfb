/-
A document that is printed over many lines reads back.

Space between tokens counts for nothing: the text with one member or element a line is written from
the same draft as the text on one line, so both have one outline (`outline_pretty`) and no reader can
tell them apart.
-/

import Lineage.Proofs.Json.Reading

namespace Lineage.Json

theorem spaces_newline (level : Nat) : Spaces (newline level) := by
  intro c hc
  rw [newline, List.mem_cons, List.mem_replicate] at hc
  rcases hc with rfl | ⟨-, rfl⟩ <;> rfl

theorem spaces_blank : Spaces [' '] := by
  rintro _ (_ | ⟨_, ⟨⟩⟩)
  rfl

theorem writtenName_newline (level : Nat) (name : String) :
    WrittenName name (newline level ++ stringChars name) :=
  .quoted (spaces_newline level) (writtenChars_escaped name.toList) spaces_nil

/-- An element on a line of its own, with space after it. -/
theorem padded_line (level : Nat) {d : Draft} {cs after : List Char} (h : d.Written cs)
    (hafter : Spaces after) : d.Padded (newline level ++ cs ++ after) := by
  rw [List.append_assoc]
  exact .spaces (spaces_newline level) h hafter

/-- The value of a member behind a blank, with space after it. -/
theorem padded_value {d : Draft} {cs after : List Char} (h : d.Written cs) (hafter : Spaces after) :
    d.Padded (' ' :: (cs ++ after)) :=
  .spaces spaces_blank h hafter

mutual

/-- A document is printed over many lines by the grammar. -/
theorem written_prettyChars : (x : Json) → ∀ level : Nat, x.draft.Written (x.prettyChars level)
  | .null, _ => .null
  | .bool true, _ => .wordTrue
  | .bool false, _ => .wordFalse
  | .number n, _ => written_numeral n
  | .string s, _ => written_string s
  | .array [], _ => .emptyArray spaces_nil
  | .array (x :: xs), level => .array
    (written_prettyElements (x :: xs) (List.cons_ne_nil x xs) level (spaces_newline level))
  | .object [], _ => .emptyObject spaces_nil
  | .object (m :: ms), level => .object
    (written_prettyMembers (m :: ms) (List.cons_ne_nil m ms) level (spaces_newline level))
termination_by structural x => x

theorem written_prettyElements : (xs : List Json) → xs ≠ [] → ∀ (level : Nat) {after : List Char},
    Spaces after → Draft.WrittenElements (draftElements xs) (prettyElements level xs ++ after)
  | [], hne, _, _, _ => absurd rfl hne
  | [x], _, level, _, hafter => .last (padded_line _ (written_prettyChars x (level + 1)) hafter)
  | x :: y :: ys, _, level, after, hafter => by
    have hline := padded_line (level + 1) (written_prettyChars x (level + 1)) spaces_nil
    have hmore := written_prettyElements (y :: ys) (List.cons_ne_nil y ys) level hafter
    rw [List.append_nil] at hline
    rw [prettyElements, List.append_assoc, List.cons_append]
    · exact .more hline hmore
    · nofun
termination_by structural xs => xs

theorem written_prettyMembers : (ms : List (String × Json)) → ms ≠ [] →
    ∀ (level : Nat) {after : List Char}, Spaces after →
      Draft.WrittenMembers (draftMembers ms) (prettyMembers level ms ++ after)
  | [], hne, _, _, _ => absurd rfl hne
  | [(name, x)], _, level, _, hafter => by
    rw [prettyMembers, List.append_assoc, List.cons_append, List.cons_append]
    exact .last (writtenName_newline _ name)
      (padded_value (written_prettyChars x (level + 1)) hafter)
  | (name, x) :: m :: ms, _, level, after, hafter => by
    have hvalue := padded_value (written_prettyChars x (level + 1)) spaces_nil
    have hmore := written_prettyMembers (m :: ms) (List.cons_ne_nil m ms) level hafter
    rw [List.append_nil] at hvalue
    have hall := Draft.WrittenMembers.more (writtenName_newline (level + 1) name) hvalue hmore
    rw [prettyMembers, draftMembers]
    · simpa using hall
    · nofun
termination_by structural ms => ms

end

theorem padded_pretty (x : Json) : x.draft.Padded x.pretty.toList := by
  rw [pretty, String.toList_ofList]
  exact (written_prettyChars x 0).padded

/-- The text over many lines has the same outline as the text on one line. -/
theorem outline_pretty (x : Json) : outline x.pretty = (x.outlined, true) := by
  rw [(padded_pretty x).outline, outlined_draft]

end Lineage.Json
