/-
The text of a condition, read as a predicate.

`Predicate` reads a predicate without knowing how it came about: its characters are cut into tokens,
and one pass over the tokens finds its truth for a row. `AND` binds closer than `OR`, parentheses
open a level of their own, and each placeholder takes the next of the values that are given along.
The text of a condition with the values that it lists has the truth of the condition
(`evaluate_text`), so the text of a filter is true of just the rows of the items that satisfy the
filter (`predicate_correct`).
-/

import Lineage.Proofs.Store.Selection
import Lineage.Text.Numeral

namespace Lineage

namespace Predicate

/-! ### Tokens -/

/-- The tokens of a predicate. -/
inductive Token where
  | column (c : Column)
  | number (n : Nat)
  | placeholder
  | equals
  | and
  | or
  | opening
  | closing
deriving DecidableEq, Repr

/-- A character that words and numbers are made of. -/
def isWordChar (c : Char) : Bool :=
  c.isAlphanum || c == '_'

/-- The columns of a row. -/
def columns : List Column := [.id, .definitionId, .tenantId, .version]

/-- The token of a word, no token if there is no word. -/
def wordTokens? (word : List Char) : Option (List Token) :=
  if word.isEmpty then some []
  else if word = "AND".toList then some [.and]
  else if word = "OR".toList then some [.or]
  else if Text.isDigits word then some [.number (Text.value word)]
  else (columns.find? fun c => c.name.toList = word).map fun c => [.column c]

@[simp] theorem wordTokens?_nil : wordTokens? [] = some [] := rfl

/-- The token of a character that is no part of a word, no token for a space. -/
def markTokens? : Char → Option (List Token)
  | ' ' => some []
  | '?' => some [.placeholder]
  | '=' => some [.equals]
  | '(' => some [.opening]
  | ')' => some [.closing]
  | _ => none

/-- The tokens of characters that come after those of an unfinished word. -/
def tokensAfter? (word : List Char) : List Char → Option (List Token)
  | [] => wordTokens? word
  | c :: cs =>
    if isWordChar c then tokensAfter? (word ++ [c]) cs
    else do return (← wordTokens? word) ++ (← markTokens? c) ++ (← tokensAfter? [] cs)

/-- The tokens of a text. -/
def tokens? (text : String) : Option (List Token) :=
  tokensAfter? [] text.toList

/-! ### Truth -/

/-- What stands on a side of a comparison. -/
inductive Operand where
  | column (c : Column)
  | number (n : Nat)
  | text (s : String)

/-- The operand that a token denotes, and the values that are left for later placeholders. -/
def operand? : Token → List String → Option (Operand × List String)
  | .column c, binds => some (.column c, binds)
  | .number n, binds => some (.number n, binds)
  | .placeholder, bind :: binds => some (.text bind, binds)
  | _, _ => none

/-- Whether operands are equal, unknown for a column without a value. Only columns with texts and
numbers with numbers are compared. -/
def equal? (column : Column → Option String) : Operand → Operand → Option Truth
  | .column c, .text s => some ((column c).map fun v => decide (v = s))
  | .number m, .number n => some (some (decide (m = n)))
  | _, _ => none

/-- What is known where tests are joined: whether an alternative before the current one is true, and
whether the tests of the current one are, as far as they are read. -/
structure Level where
  any : Truth
  every : Truth

/-- The level at the start of a predicate and behind an opening parenthesis. -/
def Level.start : Level := ⟨some false, some true⟩

/-- The truth of a level that ends with a test. -/
def Level.truth (level : Level) (test : Truth) : Truth :=
  level.any.or (level.every.and test)

/-- What was read last. -/
inductive Stage where
  | start
  | left (a : Operand)
  | comparing (a : Operand)
  | test (truth : Truth)

/-- How far a predicate is read: the levels around the current one, the current level, what was read
last, and the values for later placeholders. -/
structure State where
  outer : List Level
  level : Level
  stage : Stage
  binds : List String

/-- Reads a token. -/
def step (column : Column → Option String) (s : State) (token : Token) : Option State :=
  match s.stage, token with
  | .start, .opening => some { s with outer := s.level :: s.outer, level := .start }
  | .start, token => do
    let (a, binds) ← operand? token s.binds
    return { s with stage := .left a, binds := binds }
  | .left a, .equals => some { s with stage := .comparing a }
  | .comparing a, token => do
    let (b, binds) ← operand? token s.binds
    return { s with stage := .test (← equal? column a b), binds := binds }
  | .test truth, .and =>
    some { s with level := { s.level with every := s.level.every.and truth }, stage := .start }
  | .test truth, .or => some { s with level := ⟨s.level.truth truth, some true⟩, stage := .start }
  | .test truth, .closing =>
    match s.outer with
    | level :: outer =>
      some { s with outer := outer, level := level, stage := .test (s.level.truth truth) }
    | [] => none
  | _, _ => none

/-- Reads tokens one after the other. -/
def run (column : Column → Option String) (s : State) (tokens : List Token) : Option State :=
  tokens.foldlM (step column) s

/-- The truth at the end of a predicate, if it is complete and no value is left. -/
def State.result? (s : State) : Option Truth :=
  match s.outer, s.stage, s.binds with
  | [], .test truth, [] => some (s.level.truth truth)
  | _, _, _ => none

/-- The truth of a predicate for a row, given the values of its placeholders from left to right and
the values of the columns; none if this is no predicate or there are more or fewer values. -/
def evaluate (tokens : List Token) (binds : List String) (column : Column → Option String) :
    Option Truth :=
  (run column ⟨[], .start, .start, binds⟩ tokens).bind State.result?

variable {column : Column → Option String} {s next : State} {tokens : List Token}

/-! ### Placeholders -/

theorem length_of_operand? {token : Token} {binds rest : List String} {a : Operand}
    (h : operand? token binds = some (a, rest)) :
    binds.length = [token].count .placeholder + rest.length := by
  unfold operand? at h
  split at h
  all_goals cases h
  · simp
  · simp
  · simp [Nat.add_comm]

/-- A token takes a value if it is a placeholder. -/
theorem length_of_step {token : Token} (h : step column s token = some next) :
    s.binds.length = [token].count .placeholder + next.binds.length := by
  obtain ⟨outer, level, stage, binds⟩ := s
  cases stage with
  | start =>
    cases token
    case opening =>
      cases h
      simp
    all_goals
      simp only [step, Option.bind_eq_bind, Option.bind_eq_some_iff, Prod.exists, Option.pure_def,
        Option.some.injEq] at h
      obtain ⟨a, rest, ha, rfl⟩ := h
      exact length_of_operand? ha
  | left a =>
    cases token
    case equals =>
      cases h
      simp
    all_goals cases h
  | comparing a =>
    simp only [step, Option.bind_eq_bind, Option.bind_eq_some_iff, Prod.exists, Option.pure_def,
      Option.some.injEq] at h
    obtain ⟨b, rest, hb, _, -, rfl⟩ := h
    exact length_of_operand? hb
  | test truth =>
    cases token
    case closing =>
      cases outer with
      | nil => cases h
      | cons level outer =>
        cases h
        simp
    all_goals cases h <;> simp

/-- Tokens take as many values as there are placeholders among them. -/
theorem length_of_run (h : run column s tokens = some next) :
    s.binds.length = tokens.count .placeholder + next.binds.length := by
  induction tokens generalizing s with
  | nil =>
    cases h
    simp
  | cons token tokens ih =>
    rw [run, List.foldlM_cons, Option.bind_eq_bind, Option.bind_eq_some_iff] at h
    obtain ⟨mid, hstep, hrun⟩ := h
    have hcount : (token :: tokens).count .placeholder =
        [token].count .placeholder + tokens.count .placeholder := by
      rw [← List.count_append]
      rfl
    rw [length_of_step hstep, ih hrun, hcount, Nat.add_assoc]

/-- A predicate has as many placeholders as there are values. -/
theorem count_of_evaluate {binds : List String} {truth : Truth}
    (h : evaluate tokens binds column = some truth) :
    tokens.count .placeholder = binds.length := by
  obtain ⟨last, hrun, hresult⟩ := Option.bind_eq_some_iff.1 h
  have hrest : last.binds = [] := by
    unfold State.result? at hresult
    split at hresult
    · assumption
    · cases hresult
  have hlength := length_of_run hrun
  rw [hrest] at hlength
  exact hlength.symm

/-! ### The tokens of a condition -/

/-- The tokens of a comparison with a placeholder. -/
def comparisonTokens (c : Comparison) : List Token := [.column c.column, .equals, .placeholder]

/-- The tokens of a comparison that is true of every row. -/
def trivialTokens : List Token := [.number 1, .equals, .number 1]

/-- The tokens of a group. -/
def groupTokens (group : List Comparison) : List Token :=
  if group.isEmpty then trivialTokens
  else .opening :: [.and].intercalate (group.map comparisonTokens) ++ [.closing]

/-- The tokens of a condition. -/
def conditionTokens (c : Condition) : List Token :=
  if c.groups.isEmpty then trivialTokens else [.or].intercalate (c.groups.map groupTokens)

/-- Characters stand for tokens, whatever comes after them. -/
def Lexes (cs : List Char) (ts : List Token) : Prop :=
  ∀ rest, tokensAfter? [] (cs ++ rest) = (tokensAfter? [] rest).map (ts ++ ·)

namespace Lexes

variable {cs ds : List Char} {ts us : List Token}

theorem nil : Lexes [] [] := fun rest => by simp

theorem append (hc : Lexes cs ts) (hd : Lexes ds us) : Lexes (cs ++ ds) (ts ++ us) := by
  intro rest
  rw [List.append_assoc, hc, hd, Option.map_map]
  simp [Function.comp_def]

theorem intercalate {α : Type} {f : α → List Char} {g : α → List Token} (hsep : Lexes cs ts)
    (h : ∀ x, Lexes (f x) (g x)) (xs : List α) :
    Lexes (cs.intercalate (xs.map f)) (ts.intercalate (xs.map g)) := by
  induction xs with
  | nil => exact nil
  | cons x xs ih =>
    cases xs with
    | nil => simpa using h x
    | cons y ys =>
      simp only [List.map_cons, List.intercalate_cons_cons] at ih ⊢
      exact ((h x).append hsep).append ih

end Lexes

theorem tokensAfter?_cons_of_word {c : Char} (h : isWordChar c = true) (word cs : List Char) :
    tokensAfter? word (c :: cs) = tokensAfter? (word ++ [c]) cs := by
  rw [tokensAfter?, if_pos h]

theorem tokensAfter?_cons_of_mark {c : Char} (h : isWordChar c = false) (word cs : List Char) :
    tokensAfter? word (c :: cs) = (wordTokens? word).bind fun ts =>
      (markTokens? c).bind fun us => (tokensAfter? [] cs).map fun vs => ts ++ us ++ vs := by
  rw [tokensAfter?, if_neg (by simp [h])]
  simp [Option.map_eq_bind]

/-- A character that is no part of a word ends what comes before it, whatever follows. -/
theorem tokensAfter?_concat_append {c : Char} (hc : isWordChar c = false) {word cs : List Char}
    {ts : List Token} (h : tokensAfter? word (cs ++ [c]) = some ts) (rest : List Char) :
    tokensAfter? word (cs ++ [c] ++ rest) = (tokensAfter? [] rest).map (ts ++ ·) := by
  induction cs generalizing word ts with
  | nil =>
    rw [List.nil_append, tokensAfter?_cons_of_mark hc] at h
    obtain ⟨us, hword, vs, hmark, hts⟩ := by
      simpa only [Option.bind_eq_some_iff] using h
    cases hts
    rw [List.nil_append, List.singleton_append, tokensAfter?_cons_of_mark hc, hword, hmark]
    simp
  | cons d cs ih =>
    rw [List.cons_append, List.cons_append]
    rw [List.cons_append] at h
    by_cases hd : isWordChar d = true
    · rw [tokensAfter?_cons_of_word hd] at h ⊢
      exact ih h
    · rw [Bool.not_eq_true] at hd
      rw [tokensAfter?_cons_of_mark hd] at h ⊢
      obtain ⟨us, hword, vs, hmark, ws, hrest, hts⟩ := by
        simpa only [Option.bind_eq_some_iff, Option.map_eq_some_iff] using h
      rw [hword, hmark, ih hrest, ← hts]
      simp [Function.comp_def]

theorem lexes_concat (cs : List Char) {c : Char} {ts : List Token} (hc : isWordChar c = false)
    (h : tokensAfter? [] (cs ++ [c]) = some ts) : Lexes (cs ++ [c]) ts :=
  tokensAfter?_concat_append hc h

theorem lexes_and : Lexes " AND ".toList [.and] :=
  lexes_concat " AND".toList rfl rfl

theorem lexes_or : Lexes " OR ".toList [.or] :=
  lexes_concat " OR".toList rfl rfl

theorem lexes_opening : Lexes "(".toList [.opening] :=
  lexes_concat [] rfl rfl

theorem lexes_closing : Lexes ")".toList [.closing] :=
  lexes_concat [] rfl rfl

theorem lexes_comparison (c : Comparison) :
    Lexes (c.column.name ++ " = ?").toList (comparisonTokens c) := by
  rw [comparisonTokens]
  cases c.column with
  | id => exact lexes_concat "id = ".toList rfl rfl
  | definitionId => exact lexes_concat "definition_id = ".toList rfl rfl
  | tenantId => exact lexes_concat "tenant_id = ".toList rfl rfl
  | version => exact lexes_concat "version = ".toList rfl rfl

/-- A word ends where no character of a word follows. -/
theorem tokensAfter?_of_boundary (word : List Char) {rest : List Char}
    (h : ∀ c ∈ rest.head?, isWordChar c = false) :
    tokensAfter? word rest =
      (wordTokens? word).bind fun ts => (tokensAfter? [] rest).map (ts ++ ·) := by
  cases rest with
  | nil => cases hword : wordTokens? word <;> simp [tokensAfter?, hword]
  | cons c rest =>
    have hc : isWordChar c = false := h c rfl
    rw [tokensAfter?_cons_of_mark hc, tokensAfter?_cons_of_mark hc, wordTokens?_nil]
    simp [Function.comp_def, Option.map_bind]

theorem toList_groupText {group : List Comparison} (h : group ≠ []) :
    (Condition.groupText group).toList = "(".toList ++
      " AND ".toList.intercalate (group.map fun c => (c.column.name ++ " = ?").toList) ++
        ")".toList := by
  rw [Condition.groupText, if_neg (by simpa using h), String.toList_append, String.toList_append,
    String.toList_intercalate, List.map_map]
  rfl

/-- The text of a group stands for its tokens where no character of a word follows. -/
theorem tokensAfter?_groupText (group : List Comparison) (rest : List Char)
    (h : ∀ c ∈ rest.head?, isWordChar c = false) :
    tokensAfter? [] ((Condition.groupText group).toList ++ rest) =
      (tokensAfter? [] rest).map (groupTokens group ++ ·) := by
  cases group with
  | nil =>
    have hend := tokensAfter?_of_boundary ['1'] h
    have hword : wordTokens? ['1'] = some [.number 1] := rfl
    cases hrest : tokensAfter? [] rest <;>
      simp [Condition.groupText, groupTokens, trivialTokens, tokensAfter?, isWordChar, hword,
        markTokens?, hend, hrest]
  | cons c group =>
    have hbody := lexes_and.intercalate lexes_comparison (c :: group)
    rw [toList_groupText (List.cons_ne_nil c group)]
    exact (lexes_opening.append hbody).append lexes_closing rest

theorem tokensAfter?_groups (group : List Comparison) (groups : List (List Comparison)) :
    tokensAfter? [] (" OR ".toList.intercalate
        ((group :: groups).map fun group => (Condition.groupText group).toList)) =
      some ([.or].intercalate ((group :: groups).map groupTokens)) := by
  induction groups generalizing group with
  | nil =>
    have hgroup := tokensAfter?_groupText group [] (fun _ h => by cases h)
    simpa [tokensAfter?] using hgroup
  | cons next groups ih =>
    simp only [List.map_cons, List.intercalate_cons_cons, List.append_assoc] at ih ⊢
    rw [tokensAfter?_groupText, lexes_or, ih]
    · rfl
    · -- The separator starts with a space, which ends the group's last word.
      intro c hc
      cases hc
      rfl

/-- The text of a condition stands for its tokens. -/
theorem tokens?_text (c : Condition) : tokens? c.text = some (conditionTokens c) := by
  cases hc : c.groups with
  | nil =>
    rw [tokens?, Condition.text, conditionTokens, hc]
    rfl
  | cons group groups =>
    rw [tokens?, Condition.text, conditionTokens, hc, if_neg (by simp), if_neg (by simp),
      String.toList_intercalate, List.map_map]
    exact tokensAfter?_groups group groups

/-! ### The truth of a condition -/

theorem run_append (s : State) (ts us : List Token) :
    run column s (ts ++ us) = (run column s ts).bind fun next => run column next us := by
  rw [run, List.foldlM_append]
  rfl

section Evaluation

variable (column) (outer : List Level) (level : Level) (binds : List String)

theorem run_comparison (c : Comparison) :
    run column ⟨outer, level, .start, c.value :: binds⟩ (comparisonTokens c) =
      some ⟨outer, level, .test (c.eval column), binds⟩ := rfl

/-- After the comparisons of a group the tests of the level are true if they were before and the
group is true. -/
theorem run_comparisons (c : Comparison) (group : List Comparison) :
    ∃ every test, run column
        ⟨outer, level, .start, (c :: group).map Comparison.value ++ binds⟩
        ([.and].intercalate ((c :: group).map comparisonTokens)) =
      some ⟨outer, { level with every := every }, .test test, binds⟩ ∧
      every.and test = level.every.and (Condition.evalGroup column (c :: group)) := by
  induction group generalizing level c with
  | nil =>
    refine ⟨level.every, c.eval column, ?_, ?_⟩
    · simpa using run_comparison column outer level binds c
    · simp [Condition.evalGroup]
  | cons next group ih =>
    -- Behind the `AND` the first comparison is one of the tests of the level.
    obtain ⟨every, test, hrun, htruth⟩ :=
      ih { level with every := level.every.and (c.eval column) } next
    refine ⟨every, test, ?_, ?_⟩
    · simp only [List.map_cons, List.intercalate_cons_cons, List.append_assoc,
        List.cons_append] at hrun ⊢
      rw [run_append, run_comparison]
      exact hrun
    · rw [htruth, Truth.and_assoc]
      rfl

/-- A group is a test. -/
theorem run_group (group : List Comparison) :
    run column ⟨outer, level, .start, group.map Comparison.value ++ binds⟩ (groupTokens group) =
      some ⟨outer, level, .test (Condition.evalGroup column group), binds⟩ := by
  cases group with
  | nil => rfl
  | cons c group =>
    obtain ⟨every, test, hrun, htruth⟩ :=
      run_comparisons column (level :: outer) .start binds c group
    have hlevel : Level.truth ⟨some false, every⟩ test = Condition.evalGroup column (c :: group) :=
      htruth
    rw [groupTokens, if_neg (by simp), List.cons_append, run, List.foldlM_cons]
    -- The parenthesis has put the level aside until it is closed.
    show run column ⟨level :: outer, .start, .start, _⟩ _ = _
    rw [run_append, hrun, ← hlevel]
    rfl

/-- After the groups of a condition the level is true if an alternative was before or a group is. -/
theorem run_groups (any : Truth) (group : List Comparison) (groups : List (List Comparison)) :
    ∃ any' test, run column
        ⟨outer, ⟨any, some true⟩, .start,
          (group :: groups).flatMap (fun group => group.map Comparison.value) ++ binds⟩
        ([.or].intercalate ((group :: groups).map groupTokens)) =
      some ⟨outer, ⟨any', some true⟩, .test test, binds⟩ ∧
      any'.or test = any.or ((group :: groups).foldr
        (fun group truth => Truth.or (Condition.evalGroup column group) truth) (some false)) := by
  induction groups generalizing any group with
  | nil =>
    refine ⟨any, Condition.evalGroup column group, ?_, ?_⟩
    · simpa using run_group column outer ⟨any, some true⟩ binds group
    · simp
  | cons next groups ih =>
    -- Behind the `OR` the first group is one of the alternatives before.
    obtain ⟨any', test, hrun, htruth⟩ :=
      ih (any.or (Condition.evalGroup column group)) next
    refine ⟨any', test, ?_, ?_⟩
    · simp only [List.map_cons, List.intercalate_cons_cons, List.append_assoc,
        List.flatMap_cons] at hrun ⊢
      rw [run_append, run_group]
      exact hrun
    · rw [htruth, Truth.or_assoc]
      rfl

end Evaluation

/-- The predicate of a condition has the truth of the condition, for every row. -/
theorem evaluate_text (c : Condition) (column : Column → Option String) :
    evaluate (conditionTokens c) c.binds column = some (c.eval column) := by
  cases hc : c.groups with
  | nil =>
    rw [evaluate, conditionTokens, Condition.binds, Condition.eval, hc]
    rfl
  | cons group groups =>
    obtain ⟨any, test, hrun, htruth⟩ :=
      run_groups column [] [] (some false) group groups
    rw [List.append_nil] at hrun
    rw [evaluate, conditionTokens, Condition.binds, Condition.eval, hc, if_neg (by simp),
      if_neg (by simp), Level.start, hrun]
    exact congrArg some htruth

end Predicate

/-- The text of a filter is a predicate with as many placeholders as there are values for them. For
a row whose id is the text of an identifier and that decodes to an item, the predicate is true
exactly if the filter holds of the item. -/
theorem Filter.predicate_correct (filter : Filter) (row : Row) (id : Uuid) (item : Item)
    (hid : row.id = id.text) (hdecode : row.decode = .ok item) :
    ∃ tokens truth, Predicate.tokens? filter.condition.text = some tokens ∧
      tokens.count .placeholder = filter.condition.binds.length ∧
      Predicate.evaluate tokens filter.condition.binds row.column = some truth ∧
      (truth = some true ↔ filter.holds item = true) := by
  have heval := Predicate.evaluate_text filter.condition row.column
  have htokens := Predicate.tokens?_text filter.condition
  refine ⟨_, _, htokens, Predicate.count_of_evaluate heval, heval, ?_⟩
  rw [← filter.selects_condition item, ← Row.column_of_decode hid hdecode, Condition.selects,
    decide_eq_true_eq]

/-- An item of no tenant. -/
def unowned : Item := ⟨⟨1⟩, "order", none, "1", none, none, .bool true, 0, 0⟩

/-- A comparison with a tenant is unknown of a row without one, and does not select it. -/
theorem Filter.predicate_correct_unowned :
    ∃ tokens truth,
      Predicate.tokens? "(definition_id = ? AND tenant_id = ?) OR (version = ?)" = some tokens ∧
      tokens.count .placeholder = 3 ∧
      Predicate.evaluate tokens ["order", "acme", "2"] (Row.ofItem unowned).column = some truth ∧
      (truth = some true ↔ False) := by
  have hdecode : (Row.ofItem unowned).decode = .ok unowned := rfl
  obtain ⟨tokens, truth, htokens, hcount, hevaluate, htrue⟩ := Filter.predicate_correct
    ⟨[{ definitionId := some "order", tenantId := some "acme" }, { version := some "2" }]⟩
    (Row.ofItem unowned) ⟨1⟩ unowned rfl hdecode
  refine ⟨tokens, truth, htokens, hcount, hevaluate, htrue.trans ?_⟩
  simp [Filter.holds, Clause.holds, Clause.keyMatches, unowned]

end Lineage
