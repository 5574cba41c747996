import Mathlib
import OpenVoxDB.QueryExpansion
import OpenVoxDB.SqlText

/-!
# Equality of fact paths

`["=" "path" path]` and `["in" "path" ["array" paths]]` on fact-contents: the conditions that
`scf/storage_utils.clj` writes for them, and what PostgreSQL makes of these on a row, whose path
is an array of texts beside a text with the type of each.
-/

namespace OpenVoxDB.PathEquality

open SqlText (Token Lexer constantText)

inductive PathElement where
  | key (s : String)
  | index (n : Int)
  deriving DecidableEq, Repr

def PathElement.json : PathElement → Json
  | .key s => .str s
  | .index n => .int n

/-! ## The conditions -/

inductive Error where
  | badQuery
  | classCast
  deriving DecidableEq, Repr

/-- `int?`: an integer of a query is a `Long` where it fits. -/
def isLong (n : Int) : Bool := -(2 ^ 63) ≤ n && n < 2 ^ 63

/-- The type of a path element, in `ast-path-type-sig`. -/
def elementSig : Json → Except Error Char
  | .str _ => .ok 's'
  | .int n => if isLong n then .ok 'i' else .error .badQuery
  | _ => .error .badQuery

/-- `ast-path-type-sig` -/
def astPathTypeSig (path : List Json) : Except Error (List Char) := path.mapM elementSig

/-- `single-quote`, which `str/replace` fails in for anything but a string. -/
def singleQuote : Json → Except Error (List Char)
  | .str s => .ok (constantText s.toList)
  | _ => .error .classCast

/-- `str-vec->array-literal` -/
def strVecToArrayLiteral (strvec : List Json) : Except Error (List Char) := do
  let quoted ← strvec.mapM singleQuote
  return "(array[".toList ++ [',', ' '].intercalate quoted ++ "])".toList

/-- The comparison of the columns of a path with a literal. -/
def clause (array sig : List Char) : List Char :=
  "(fc.path = ".toList ++ array ++ " and fc.types = ".toList ++ constantText sig ++ ")".toList

/-- `path-array-col-matches-ast-path` -/
def pathArrayColMatchesAstPath (path : List Json) : Except Error (List Char) := do
  let sig ← astPathTypeSig path
  let array ← strVecToArrayLiteral path
  return clause array sig

/-- An element of `ast-path->array-path`. -/
def elementText : Json → Except Error Json
  | .str s => .ok (.str s)
  | .int n => if isLong n then .ok (.str (toString n)) else .error .badQuery
  | _ => .error .badQuery

/-- `ast-path->array-path` -/
def astPathToArrayPath (path : List Json) : Except Error (List Json) := path.mapM elementText

/-- One path of `path-array-col-matches-any-ast-path`. -/
def anyClause (path : List Json) : Except Error (List Char) := do
  let arrayPath ← astPathToArrayPath path
  let sig ← astPathTypeSig path
  let array ← strVecToArrayLiteral arrayPath
  return clause array sig

/-- `path-array-col-matches-any-ast-path` -/
def pathArrayColMatchesAnyAstPath (paths : List (List Json)) : Except Error (List Char) := do
  let clauses ← paths.mapM anyClause
  return "(".toList ++ " or ".toList.intercalate clauses ++ ")".toList

/-! ## What PostgreSQL makes of them -/

/-- A row of the flattened facts. -/
structure PathRow where
  path : List String
  types : String
  deriving DecidableEq, Repr

def PathElement.text : PathElement → String
  | .key s => s
  | .index n => toString n

def PathElement.sig : PathElement → Char
  | .key _ => 's'
  | .index _ => 'i'

/-- The row of a stored path. -/
def storedRow (path : List PathElement) : PathRow where
  path := path.map PathElement.text
  types := String.ofList (path.map PathElement.sig)

/-- The constants of an array up to its bracket. An array of none has no type. -/
def readConstants : List Token → Option (List String × List Token)
  | .constant s :: .symbol ']' :: rest => some ([String.ofList s], rest)
  | .constant s :: .symbol ',' :: rest =>
    (readConstants rest).map fun p => (String.ofList s :: p.1, p.2)
  | _ => none

/-- `(fc.path = (array[...]) and fc.types = ...)` -/
def readClause : List Token → Option (PathRow × List Token)
  | .symbol '(' :: .word column :: .symbol '=' :: .symbol '(' :: .word array :: .symbol '[' ::
      rest =>
    if column = "fc.path".toList ∧ array = "array".toList then
      match readConstants rest with
      | some (path, .symbol ')' :: .word both :: .word sigColumn :: .symbol '=' ::
          .constant sig :: .symbol ')' :: rest) =>
        if both = "and".toList ∧ sigColumn = "fc.types".toList then
          some (⟨path, String.ofList sig⟩, rest)
        else none
      | _ => none
    else none
  | _ => none

/-- Clauses with `or` between them, up to a parenthesis. -/
def readClauses : Nat → List Token → Option (List PathRow × List Token)
  | 0, _ => none
  | n + 1, tokens =>
    match readClause tokens with
    | some (row, .symbol ')' :: rest) => some ([row], rest)
    | some (row, .word either :: rest) =>
      if either = "or".toList then (readClauses n rest).map fun p => (row :: p.1, p.2) else none
    | _ => none

/-- The rows that the condition of a statement lets through: those of one clause, or of any among
those in parentheses. -/
def readCondition (tokens : List Token) : Option (List PathRow) :=
  match readClause tokens with
  | some (row, []) => some [row]
  | _ =>
    match tokens with
    | .symbol '(' :: rest =>
      match readClauses tokens.length rest with
      | some (rows, []) => some rows
      | _ => none
    | _ => none

/-- Whether a row meets a condition, where `none` is an error of the statement. -/
def holds (condition : List Char) (row : PathRow) : Option Bool :=
  ((SqlText.lex condition).bind readCondition).map fun rows => row ∈ rows

/-! ## Exactness -/

/-- The condition compiles, and the stored paths that meet it are these. -/
def Selects (condition : Except Error (List Char)) (paths : List (List PathElement)) : Prop :=
  ∃ text, condition = .ok text ∧
    ∀ stored : List PathElement, holds text (storedRow stored) = some (decide (stored ∈ paths))

def equalsPath (path : List PathElement) : Except Error (List Char) :=
  pathArrayColMatchesAstPath (path.map PathElement.json)

def inPaths (paths : List (List PathElement)) : Except Error (List Char) :=
  pathArrayColMatchesAnyAstPath (paths.map fun path => path.map PathElement.json)

/-- An element that an array of texts can hold and that is an integer where it is an index. -/
def PathElement.Storable : PathElement → Prop
  | .key s => '\x00' ∉ s.toList
  | .index n => isLong n

def PathElement.isKey : PathElement → Bool
  | .key _ => true
  | .index _ => false

example : holds "(fc.path = (array['a', 'it''s']) and fc.types = 'ss')".toList
    (storedRow [.key "a", .key "it's"]) = some true := by decide +kernel

/-! ## Reading a condition -/

/-- The literal of an array of texts. -/
def arrayText (texts : List String) : List Char :=
  "(array[".toList ++ [',', ' '].intercalate (texts.map fun s => constantText s.toList) ++
    "])".toList

/-- The clause that lets the row through. -/
def clauseText (r : PathRow) : List Char := clause (arrayText r.path) r.types.toList

def constantTokens : List String → List Token
  | [] => [.symbol ']']
  | [s] => [.constant s.toList, .symbol ']']
  | s :: t :: texts => .constant s.toList :: .symbol ',' :: constantTokens (t :: texts)

def columnTokens : List Token := [.symbol '(', .word "fc.path".toList, .symbol '=']

def arrayTokens : List Token := [.symbol '(', .word "array".toList, .symbol '[']

def closeToken : List Token := [.symbol ')']

def sigTokens : List Token := [.word "and".toList, .word "fc.types".toList, .symbol '=']

def clauseTokens (r : PathRow) : List Token :=
  let types : List Token := [.constant r.types.toList, .symbol ')']
  columnTokens ++ (arrayTokens ++
    (constantTokens r.path ++ (closeToken ++ (sigTokens ++ types))))

theorem lexes_constants (texts : List String) :
    SqlText.Lexes
      ([',', ' '].intercalate (texts.map fun s => constantText s.toList) ++ [']'])
      (constantTokens texts) := by
  induction texts with
  | nil => exact SqlText.lexes_of_start _ _ (by decide)
  | cons s texts ih =>
    cases texts with
    | nil =>
      have hone := SqlText.lexes_constantText s.toList ']' (by decide)
      simpa [List.intercalate, constantTokens] using hone
    | cons t texts =>
      have hcomma := SqlText.lexes_constantText s.toList ',' (by decide)
      have hspace : SqlText.Lexes [' '] [] := SqlText.lexes_of_start _ _ (by decide)
      have hsplit : [',', ' '].intercalate ((s :: t :: texts).map fun s => constantText s.toList) ++
          [']'] = (constantText s.toList ++ [',']) ++ ([' '] ++
            ([',', ' '].intercalate ((t :: texts).map fun s => constantText s.toList) ++ [']'])) := by
        simp [List.intercalate]
      rw [hsplit]
      exact hcomma.append (hspace.append ih)

theorem lexes_clauseText (r : PathRow) : SqlText.Lexes (clauseText r) (clauseTokens r) := by
  have hcolumn : SqlText.Lexes "(fc.path = ".toList columnTokens :=
    SqlText.lexes_of_start _ _ (by decide +kernel)
  have harray : SqlText.Lexes "(array[".toList arrayTokens :=
    SqlText.lexes_of_start _ _ (by decide +kernel)
  have hclose : SqlText.Lexes [')'] closeToken := SqlText.lexes_of_start _ _ (by decide)
  have hsig : SqlText.Lexes " and fc.types = ".toList sigTokens :=
    SqlText.lexes_of_start _ _ (by decide +kernel)
  have hbrackets : "])".toList = [']', ')'] := by decide +kernel
  have hlast : ")".toList = [')'] := by decide +kernel
  have htext : clauseText r = "(fc.path = ".toList ++ ("(array[".toList ++
      (([',', ' '].intercalate (r.path.map fun s => constantText s.toList) ++ [']']) ++
        ([')'] ++ (" and fc.types = ".toList ++ (constantText r.types.toList ++ [')']))))) := by
    unfold clauseText clause arrayText
    generalize "(fc.path = ".toList = a
    generalize "(array[".toList = b
    generalize " and fc.types = ".toList = c
    rw [hbrackets, hlast]
    simp
  rw [htext]
  exact hcolumn.append (harray.append ((lexes_constants r.path).append
    (hclose.append (hsig.append (SqlText.lexes_constantText r.types.toList ')' (by decide))))))

theorem readConstants_eq (texts : List String) (rest : List Token) :
    readConstants (constantTokens texts ++ rest) =
      if texts = [] then none else some (texts, rest) := by
  induction texts with
  | nil => simp [constantTokens, readConstants]
  | cons s texts ih =>
    cases texts with
    | nil => simp [constantTokens, readConstants]
    | cons t texts =>
      simp only [constantTokens, List.cons_append, readConstants, ih]
      simp

theorem readClause_eq (r : PathRow) (rest : List Token) :
    readClause (clauseTokens r ++ rest) = if r.path = [] then none else some (r, rest) := by
  simp only [clauseTokens, columnTokens, arrayTokens, closeToken, sigTokens, List.append_assoc, List.cons_append, List.nil_append, readClause,
    and_self, if_true, readConstants_eq]
  by_cases h : r.path = []
  · simp [h]
  · simp [h]

/-- The tokens of clauses up to the last parenthesis. -/
def clausesTokens : List PathRow → List Token
  | [] => [.symbol ')']
  | [r] => clauseTokens r ++ [.symbol ')']
  | r :: r' :: rows => clauseTokens r ++ ([.word "or".toList] ++ clausesTokens (r' :: rows))

def clausesText (rows : List PathRow) : List Char :=
  "(".toList ++ " or ".toList.intercalate (rows.map clauseText) ++ ")".toList

theorem lexes_clauses (rows : List PathRow) :
    SqlText.Lexes (" or ".toList.intercalate (rows.map clauseText) ++ [')'])
      (clausesTokens rows) := by
  have hclose : SqlText.Lexes [')'] [.symbol ')'] := SqlText.lexes_of_start _ _ (by decide)
  induction rows with
  | nil => exact hclose
  | cons r rows ih =>
    cases rows with
    | nil =>
      have hone : " or ".toList.intercalate ([r].map clauseText) ++ [')'] =
          clauseText r ++ [')'] := by simp [List.intercalate]
      rw [hone]
      exact (lexes_clauseText r).append hclose
    | cons r' rows =>
      have hor : SqlText.Lexes " or ".toList [.word "or".toList] :=
        SqlText.lexes_of_start _ _ (by decide +kernel)
      have hsplit : " or ".toList.intercalate ((r :: r' :: rows).map clauseText) ++ [')'] =
          clauseText r ++ (" or ".toList ++
            (" or ".toList.intercalate ((r' :: rows).map clauseText) ++ [')'])) := by
        generalize " or ".toList = a
        simp [List.intercalate]
      rw [hsplit]
      exact (lexes_clauseText r).append (hor.append ih)

theorem readClauses_eq (rows : List PathRow) (n : Nat) (hn : rows.length ≤ n) :
    readClauses n (clausesTokens rows) =
      if rows = [] ∨ ∃ r ∈ rows, r.path = [] then none else some (rows, []) := by
  induction rows generalizing n with
  | nil =>
    cases n with
    | zero => simp [readClauses]
    | succ n => simp [clausesTokens, readClauses, readClause]
  | cons r rows ih =>
    cases n with
    | zero => simp at hn
    | succ n =>
      cases rows with
      | nil =>
        rw [clausesTokens, readClauses, readClause_eq]
        by_cases h : r.path = []
        · simp [h]
        · simp [h]
      | cons r' rows =>
        rw [clausesTokens, readClauses, readClause_eq]
        by_cases h : r.path = []
        · simp [h]
        · rw [if_neg h]
          simp only [List.singleton_append, if_true]
          rw [ih n (by simpa using hn)]
          by_cases hrest : r'.path = [] ∨ ∃ q ∈ rows, q.path = []
          · simp [hrest]
          · simp [hrest, h]

theorem nul_mem_clauseText (r : PathRow) :
    '\x00' ∈ clauseText r ↔ (∃ s ∈ r.path, '\x00' ∈ s.toList) ∨ '\x00' ∈ r.types.toList := by
  have hcolumn : '\x00' ∉ "(fc.path = ".toList := by decide +kernel
  have harray : '\x00' ∉ "(array[".toList := by decide +kernel
  have hclose : '\x00' ∉ "])".toList := by decide +kernel
  have hsig : '\x00' ∉ " and fc.types = ".toList := by decide +kernel
  have hlast : '\x00' ∉ ")".toList := by decide +kernel
  have hsep : '\x00' ∉ [',', ' '] := by decide
  have hquote : '\x00' ≠ '\'' := by decide
  unfold clauseText clause arrayText
  generalize "(fc.path = ".toList = a at hcolumn ⊢
  generalize "(array[".toList = b at harray ⊢
  generalize "])".toList = c at hclose ⊢
  generalize " and fc.types = ".toList = d at hsig ⊢
  generalize ")".toList = e at hlast ⊢
  simp only [List.mem_append, hcolumn, harray, hclose, hsig, hlast,
    SqlText.mem_intercalate _ _ _ hsep, SqlText.mem_constantText _ _ hquote, List.mem_map,
    false_or, or_false, exists_exists_and_eq_and]

theorem nul_mem_clausesText (rows : List PathRow) :
    '\x00' ∈ clausesText rows ↔ ∃ r ∈ rows, '\x00' ∈ clauseText r := by
  have hopen : '\x00' ∉ "(".toList := by decide +kernel
  have hsep : '\x00' ∉ " or ".toList := by decide +kernel
  have hlast : '\x00' ∉ ")".toList := by decide +kernel
  unfold clausesText
  generalize "(".toList = a at hopen ⊢
  generalize " or ".toList = b at hsep ⊢
  generalize ")".toList = c at hlast ⊢
  simp only [List.mem_append, hopen, hlast, SqlText.mem_intercalate _ _ _ hsep,
    List.mem_map, false_or, or_false, exists_exists_and_eq_and]

theorem lex_of_lexes (chars : List Char) (tokens : List Token) (h : SqlText.Lexes chars tokens) :
    SqlText.lex chars = if '\x00' ∈ chars then none else some tokens := by
  rw [SqlText.lex, SqlText.lexChars_of_lexes chars tokens h]

/-- What a clause lets through. -/
theorem holds_clauseText (r row : PathRow) :
    holds (clauseText r) row =
      if '\x00' ∈ clauseText r ∨ r.path = [] then none else some (decide (row = r)) := by
  have hread : readCondition (clauseTokens r) = if r.path = [] then none else some [r] := by
    have hclause := readClause_eq r []
    obtain ⟨rest, hrest⟩ : ∃ rest, clauseTokens r =
        .symbol '(' :: .word "fc.path".toList :: rest := ⟨_, rfl⟩
    rw [List.append_nil, hrest] at hclause
    rw [hrest]
    by_cases h : r.path = []
    · rw [if_pos h] at hclause ⊢
      simp only [readCondition, hclause]
      simp [readClauses, readClause]
    · rw [if_neg h] at hclause ⊢
      simp only [readCondition, hclause]
  rw [holds, lex_of_lexes _ _ (lexes_clauseText r)]
  by_cases hnul : '\x00' ∈ clauseText r
  · simp [hnul]
  · by_cases h : r.path = []
    · simp [hnul, hread, h]
    · simp [hnul, hread, h]

theorem length_le_clausesTokens (rows : List PathRow) :
    rows.length ≤ (clausesTokens rows).length := by
  induction rows with
  | nil => simp
  | cons r rows ih =>
    cases rows with
    | nil => simp [clausesTokens]
    | cons r' rows =>
      simp only [clausesTokens, List.length_append, List.length_cons] at ih ⊢
      omega

/-- What clauses in parentheses let through. -/
theorem holds_clausesText (rows : List PathRow) (row : PathRow) :
    holds (clausesText rows) row =
      if '\x00' ∈ clausesText rows ∨ rows = [] ∨ ∃ r ∈ rows, r.path = [] then none
      else some (decide (row ∈ rows)) := by
  have hopen : SqlText.Lexes "(".toList [.symbol '('] :=
    SqlText.lexes_of_start _ _ (by decide +kernel)
  have htext : clausesText rows = "(".toList ++
      (" or ".toList.intercalate (rows.map clauseText) ++ [')']) := by
    have hlast : ")".toList = [')'] := by decide +kernel
    unfold clausesText
    rw [hlast, List.append_assoc]
  have hlexes : SqlText.Lexes (clausesText rows) (.symbol '(' :: clausesTokens rows) := by
    rw [htext]
    exact hopen.append (lexes_clauses rows)
  have hclause : readClause (.symbol '(' :: clausesTokens rows) = none := by
    cases rows with
    | nil => rfl
    | cons r rows =>
      obtain ⟨rest, hrest⟩ : ∃ rest, clausesTokens (r :: rows) = .symbol '(' :: rest := by
        cases rows with
        | nil => exact ⟨_, rfl⟩
        | cons r' rows => exact ⟨_, rfl⟩
      rw [hrest]
      rfl
  have hread : readCondition (.symbol '(' :: clausesTokens rows) =
      if rows = [] ∨ ∃ r ∈ rows, r.path = [] then none else some rows := by
    have hlen := length_le_clausesTokens rows
    have hclauses := readClauses_eq rows (Token.symbol '(' :: clausesTokens rows).length
      (by simp only [List.length_cons]; omega)
    by_cases h : rows = [] ∨ ∃ r ∈ rows, r.path = []
    · rw [if_pos h] at hclauses ⊢
      simp only [readCondition, hclause, hclauses]
    · rw [if_neg h] at hclauses ⊢
      simp only [readCondition, hclause, hclauses]
  rw [holds, lex_of_lexes _ _ hlexes]
  by_cases hnul : '\x00' ∈ clausesText rows
  · simp [hnul]
  · by_cases h : rows = [] ∨ ∃ r ∈ rows, r.path = []
    · simp [hnul, hread, h]
    · simp [hnul, hread, h]

/-! ## Stored paths -/

theorem toString_int_inj (m n : Int) (h : toString m = toString n) : m = n := by
  have hminus : ∀ k l : Nat, Nat.repr k ≠ "-" ++ Nat.repr l := by
    intro k l he
    have hmem : '-' ∈ (Nat.repr k).toList := by
      rw [he]
      simp
    have hdigit := Nat.isDigit_of_mem_toDigits (b := 10) (n := k) (by decide) (by decide)
      (c := '-') (by simpa [Nat.toString_eq_ofList_toDigits] using hmem)
    exact absurd hdigit (by decide)
  cases m with
  | ofNat k =>
    cases n with
    | ofNat l => exact congrArg Int.ofNat (Nat.repr_inj.mp h)
    | negSucc l => exact absurd h (hminus k (l + 1))
  | negSucc k =>
    cases n with
    | ofNat l => exact absurd h.symm (hminus l (k + 1))
    | negSucc l =>
      have hchars := congrArg String.toList h
      have hsame : ("-" ++ Nat.repr (k + 1)).toList = ("-" ++ Nat.repr (l + 1)).toList := hchars
      rw [String.toList_append, String.toList_append] at hsame
      have hrepr := String.toList_injective (List.append_cancel_left hsame)
      have hkl := Nat.repr_inj.mp hrepr
      simp only [Nat.add_right_cancel_iff] at hkl
      rw [hkl]

/-- The row determines the path. -/
theorem storedRow_inj (path path' : List PathElement) (h : storedRow path = storedRow path') :
    path = path' := by
  simp only [storedRow, PathRow.mk.injEq] at h
  obtain ⟨hpath, htypes⟩ := h
  have htypes' := String.ofList_injective htypes
  induction path generalizing path' with
  | nil =>
    cases path' with
    | nil => rfl
    | cons e path' => simp at hpath
  | cons e path ih =>
    cases path' with
    | nil => simp at hpath
    | cons e' path' =>
      simp only [List.map_cons, List.cons.injEq] at hpath htypes'
      have hrest := ih path' hpath.2 (congrArg String.ofList htypes'.2) htypes'.2
      have hfirst : e = e' := by
        cases e with
        | key s =>
          cases e' with
          | key s' => rw [show s = s' from hpath.1]
          | index n => exact absurd htypes'.1 (by simp [PathElement.sig])
        | index n =>
          cases e' with
          | key s' => exact absurd htypes'.1 (by simp [PathElement.sig])
          | index n' => rw [toString_int_inj n n' hpath.1]
      rw [hfirst, hrest]

theorem storedRow_cons (e : PathElement) (path : List PathElement) :
    (storedRow (e :: path)).types.toList = e.sig :: (storedRow path).types.toList := by
  simp [storedRow]

theorem nul_mem_storedRow (path : List PathElement) :
    '\x00' ∈ clauseText (storedRow path) ↔ ∃ e ∈ path, ¬ e.Storable ∧ e.isKey = true := by
  have htypes : '\x00' ∉ (storedRow path).types.toList := by
    induction path with
    | nil => simp [storedRow]
    | cons e path ih =>
      rw [storedRow_cons]
      cases e with
      | key s => simpa [PathElement.sig] using ih
      | index n => simpa [PathElement.sig] using ih
  have hint : ∀ n : Int, '\x00' ∉ (toString n).toList := by
    intro n hmem
    have hnat : ∀ k : Nat, '\x00' ∉ (Nat.repr k).toList := by
      intro k hk
      have hdigit := Nat.isDigit_of_mem_toDigits (b := 10) (n := k) (by decide) (by decide)
        (c := '\x00') (by simpa [Nat.toString_eq_ofList_toDigits] using hk)
      exact absurd hdigit (by decide)
    cases n with
    | ofNat k => exact hnat k hmem
    | negSucc k =>
      have hminus : '\x00' ∈ ("-" ++ Nat.repr (k + 1)).toList := hmem
      rw [String.toList_append, List.mem_append] at hminus
      obtain h | h := hminus
      · exact absurd h (by decide)
      · exact hnat (k + 1) h
  rw [nul_mem_clauseText, or_iff_left htypes]
  simp only [storedRow, List.mem_map, exists_exists_and_eq_and]
  constructor
  · intro ⟨e, he, hnul⟩
    cases e with
    | key s => exact ⟨.key s, he, fun h => h hnul, rfl⟩
    | index n => exact absurd hnul (hint n)
  · intro ⟨e, he, hnot, hkey⟩
    cases e with
    | key s => exact ⟨.key s, he, not_not.mp hnot⟩
    | index n => simp [PathElement.isKey] at hkey

/-! ## Compilation -/

theorem mapM_singleQuote (path : List PathElement) (texts : List (List Char)) :
    (path.map PathElement.json).mapM singleQuote = .ok texts ↔
      (∀ e ∈ path, e.isKey = true) ∧
        texts = (storedRow path).path.map fun s => constantText s.toList := by
  induction path generalizing texts with
  | nil =>
    constructor
    · intro h
      cases h
      exact ⟨by simp, rfl⟩
    · intro ⟨_, h⟩
      rw [h]
      rfl
  | cons e path ih =>
    rw [List.map_cons, List.mapM_cons]
    cases e with
    | index n => simp [singleQuote, PathElement.json, PathElement.isKey, bind, Except.bind]
    | key s =>
      rw [QueryExpansion.bind_eq_ok]
      constructor
      · intro ⟨text, htext, hrest⟩
        obtain ⟨rest, hpath, hcons⟩ := (QueryExpansion.bind_eq_ok _ _ _).mp hrest
        obtain ⟨hkeys, rfl⟩ := (ih rest).mp hpath
        cases htext
        cases hcons
        exact ⟨by simpa [PathElement.isKey] using hkeys, rfl⟩
      · intro ⟨hkeys, htexts⟩
        refine ⟨constantText s.toList, rfl, ?_⟩
        rw [(ih _).mpr ⟨fun e he => hkeys e (List.mem_cons_of_mem _ he), rfl⟩, htexts]
        rfl

/-- An index of the query that is a `Long`, or a key. -/
def PathElement.Compiles : PathElement → Prop
  | .key _ => True
  | .index n => isLong n = true

theorem mapM_elementSig (path : List PathElement) (sig : List Char) :
    (path.map PathElement.json).mapM elementSig = .ok sig ↔
      (∀ e ∈ path, e.Compiles) ∧ sig = (storedRow path).types.toList := by
  induction path generalizing sig with
  | nil => simp [storedRow, pure, Except.pure, eq_comm]
  | cons e path ih =>
    rw [List.map_cons, List.mapM_cons, QueryExpansion.bind_eq_ok, storedRow_cons]
    have helement : ∀ c, elementSig e.json = .ok c ↔
        e.Compiles ∧ c = e.sig := by
      intro c
      cases e with
      | key s => simp [elementSig, PathElement.json, PathElement.Compiles, PathElement.sig, eq_comm]
      | index n =>
        by_cases h : isLong n = true
        · simp [elementSig, PathElement.json, PathElement.Compiles, PathElement.sig, h, eq_comm]
        · simp [elementSig, PathElement.json, PathElement.Compiles, PathElement.sig, h]
    constructor
    · intro ⟨c, hc, hrest⟩
      obtain ⟨rest, hpath, hcons⟩ := (QueryExpansion.bind_eq_ok _ _ _).mp hrest
      obtain ⟨hcompiles, rfl⟩ := (ih rest).mp hpath
      obtain ⟨he, rfl⟩ := (helement c).mp hc
      cases hcons
      exact ⟨List.forall_mem_cons.mpr ⟨he, hcompiles⟩, rfl⟩
    · intro ⟨hcompiles, hsig⟩
      obtain ⟨he, hrest⟩ := List.forall_mem_cons.mp hcompiles
      refine ⟨_, (helement _).mpr ⟨he, rfl⟩, ?_⟩
      rw [(ih _).mpr ⟨hrest, rfl⟩, hsig]
      rfl

theorem strVecToArrayLiteral_eq_ok (path : List PathElement) (array : List Char) :
    strVecToArrayLiteral (path.map PathElement.json) = .ok array ↔
      (∀ e ∈ path, e.isKey = true) ∧ array = arrayText (storedRow path).path := by
  rw [strVecToArrayLiteral, QueryExpansion.bind_eq_ok]
  constructor
  · intro ⟨texts, htexts, harray⟩
    obtain ⟨hkeys, rfl⟩ := (mapM_singleQuote path texts).mp htexts
    cases harray
    exact ⟨hkeys, rfl⟩
  · intro ⟨hkeys, harray⟩
    exact ⟨_, (mapM_singleQuote path _).mpr ⟨hkeys, rfl⟩, by rw [harray]; rfl⟩

/-- The condition of `=` is written for paths of keys only. -/
theorem equalsPath_eq_ok (path : List PathElement) (text : List Char) :
    equalsPath path = .ok text ↔
      (∀ e ∈ path, e.isKey = true) ∧ text = clauseText (storedRow path) := by
  rw [equalsPath, pathArrayColMatchesAstPath, QueryExpansion.bind_eq_ok]
  constructor
  · intro ⟨sig, hsig, hrest⟩
    obtain ⟨array, harray, htext⟩ := (QueryExpansion.bind_eq_ok _ _ _).mp hrest
    obtain ⟨-, rfl⟩ := (mapM_elementSig path sig).mp hsig
    obtain ⟨hkeys, rfl⟩ := (strVecToArrayLiteral_eq_ok path array).mp harray
    cases htext
    exact ⟨hkeys, rfl⟩
  · intro ⟨hkeys, htext⟩
    have hcompiles : ∀ e ∈ path, e.Compiles := by
      intro e he
      cases e with
      | key s => trivial
      | index n => exact absurd (hkeys _ he) (by simp [PathElement.isKey])
    refine ⟨_, (mapM_elementSig path _).mpr ⟨hcompiles, rfl⟩, ?_⟩
    rw [QueryExpansion.bind_eq_ok]
    exact ⟨_, (strVecToArrayLiteral_eq_ok path _).mpr ⟨hkeys, rfl⟩, by rw [htext]; rfl⟩

/-- The keys that `ast-path->array-path` makes of a path. -/
def textKeys (path : List PathElement) : List PathElement :=
  (storedRow path).path.map .key

theorem storedRow_textKeys (path : List PathElement) :
    (storedRow (textKeys path)).path = (storedRow path).path := by
  simp only [textKeys, storedRow, List.map_map]
  rfl

theorem astPathToArrayPath_eq_ok (path : List PathElement) (texts : List Json) :
    astPathToArrayPath (path.map PathElement.json) = .ok texts ↔
      (∀ e ∈ path, e.Compiles) ∧ texts = (textKeys path).map PathElement.json := by
  unfold astPathToArrayPath
  induction path generalizing texts with
  | nil => simp [textKeys, storedRow, pure, Except.pure, eq_comm]
  | cons e path ih =>
    rw [List.map_cons, List.mapM_cons, QueryExpansion.bind_eq_ok]
    have helement : ∀ v, elementText e.json = .ok v ↔
        e.Compiles ∧ v = .str e.text := by
      intro v
      cases e with
      | key s => simp [elementText, PathElement.json, PathElement.Compiles, PathElement.text, eq_comm]
      | index n =>
        by_cases h : isLong n = true
        · simp [elementText, PathElement.json, PathElement.Compiles, PathElement.text, h, eq_comm]
        · simp [elementText, PathElement.json, PathElement.Compiles, PathElement.text, h]
    have hcons : (textKeys (e :: path)).map PathElement.json =
        .str e.text :: (textKeys path).map PathElement.json := rfl
    constructor
    · intro ⟨v, hv, hrest⟩
      obtain ⟨rest, hpath, htexts⟩ := (QueryExpansion.bind_eq_ok _ _ _).mp hrest
      obtain ⟨hcompiles, rfl⟩ := (ih rest).mp hpath
      obtain ⟨he, rfl⟩ := (helement v).mp hv
      cases htexts
      exact ⟨List.forall_mem_cons.mpr ⟨he, hcompiles⟩, hcons.symm⟩
    · intro ⟨hcompiles, htexts⟩
      obtain ⟨he, hrest⟩ := List.forall_mem_cons.mp hcompiles
      refine ⟨_, (helement _).mpr ⟨he, rfl⟩, ?_⟩
      rw [(ih _).mpr ⟨hrest, rfl⟩, htexts, hcons]
      rfl

theorem anyClause_eq_ok (path : List PathElement) (text : List Char) :
    anyClause (path.map PathElement.json) = .ok text ↔
      (∀ e ∈ path, e.Compiles) ∧ text = clauseText (storedRow path) := by
  have hkeys : ∀ e ∈ textKeys path, e.isKey = true := by
    intro e he
    obtain ⟨s, -, rfl⟩ := List.mem_map.mp he
    rfl
  rw [anyClause, QueryExpansion.bind_eq_ok]
  constructor
  · intro ⟨texts, htexts, hrest⟩
    obtain ⟨sig, hsig, hrest⟩ := (QueryExpansion.bind_eq_ok _ _ _).mp hrest
    obtain ⟨array, harray, htext⟩ := (QueryExpansion.bind_eq_ok _ _ _).mp hrest
    obtain ⟨hcompiles, rfl⟩ := (astPathToArrayPath_eq_ok path texts).mp htexts
    obtain ⟨-, rfl⟩ := (mapM_elementSig path sig).mp hsig
    obtain ⟨-, rfl⟩ := (strVecToArrayLiteral_eq_ok _ array).mp harray
    cases htext
    rw [storedRow_textKeys]
    exact ⟨hcompiles, rfl⟩
  · intro ⟨hcompiles, htext⟩
    refine ⟨_, (astPathToArrayPath_eq_ok path _).mpr ⟨hcompiles, rfl⟩, ?_⟩
    rw [QueryExpansion.bind_eq_ok]
    refine ⟨_, (mapM_elementSig path _).mpr ⟨hcompiles, rfl⟩, ?_⟩
    rw [QueryExpansion.bind_eq_ok]
    refine ⟨_, (strVecToArrayLiteral_eq_ok _ _).mpr ⟨hkeys, rfl⟩, ?_⟩
    rw [storedRow_textKeys, htext]
    rfl

theorem inPaths_eq_ok (paths : List (List PathElement)) (text : List Char) :
    inPaths paths = .ok text ↔
      (∀ path ∈ paths, ∀ e ∈ path, e.Compiles) ∧ text = clausesText (paths.map storedRow) := by
  have hclauses : ∀ clauses, (paths.map fun path => path.map PathElement.json).mapM anyClause =
      .ok clauses ↔ (∀ path ∈ paths, ∀ e ∈ path, e.Compiles) ∧
        clauses = (paths.map storedRow).map clauseText := by
    induction paths with
    | nil =>
      intro clauses
      simp [pure, Except.pure, eq_comm]
    | cons path paths ih =>
      intro clauses
      rw [List.map_cons, List.mapM_cons, QueryExpansion.bind_eq_ok]
      constructor
      · intro ⟨c, hc, hrest⟩
        obtain ⟨rest, hpaths, hcons⟩ := (QueryExpansion.bind_eq_ok _ _ _).mp hrest
        obtain ⟨hall, rfl⟩ := (ih rest).mp hpaths
        obtain ⟨hone, rfl⟩ := (anyClause_eq_ok path c).mp hc
        cases hcons
        exact ⟨List.forall_mem_cons.mpr ⟨hone, hall⟩, rfl⟩
      · intro ⟨hcompiles, htexts⟩
        obtain ⟨hone, hall⟩ := List.forall_mem_cons.mp hcompiles
        refine ⟨_, (anyClause_eq_ok path _).mpr ⟨hone, rfl⟩, ?_⟩
        rw [(ih _).mpr ⟨hall, rfl⟩, htexts]
        rfl
  rw [inPaths, pathArrayColMatchesAnyAstPath, QueryExpansion.bind_eq_ok]
  constructor
  · intro ⟨clauses, hok, htext⟩
    obtain ⟨hcompiles, rfl⟩ := (hclauses clauses).mp hok
    cases htext
    exact ⟨hcompiles, rfl⟩
  · intro ⟨hcompiles, htext⟩
    exact ⟨_, (hclauses _).mpr ⟨hcompiles, rfl⟩, by rw [htext]; rfl⟩

/-! ## Exactness of the two forms -/

theorem storable_iff (e : PathElement) :
    e.Storable ↔ e.Compiles ∧ ¬ (¬ e.Storable ∧ e.isKey = true) := by
  cases e with
  | key s => simp [PathElement.Compiles, PathElement.isKey]
  | index n => simp [PathElement.Storable, PathElement.Compiles, PathElement.isKey]

theorem storedRow_path_eq_nil (path : List PathElement) :
    (storedRow path).path = [] ↔ path = [] := by simp [storedRow]

theorem storedRow_eq_iff (path path' : List PathElement) :
    storedRow path = storedRow path' ↔ path = path' :=
  ⟨storedRow_inj path path', fun h => by rw [h]⟩

theorem equalsPath_selects_iff (path : List PathElement) :
    Selects (equalsPath path) [path] ↔
      path ≠ [] ∧ ∀ e ∈ path, e.isKey = true ∧ e.Storable := by
  constructor
  · intro ⟨text, htext, hholds⟩
    obtain ⟨hkeys, rfl⟩ := (equalsPath_eq_ok path text).mp htext
    have hgood := hholds path
    rw [holds_clauseText] at hgood
    split at hgood
    · simp at hgood
    · rename_i h
      obtain ⟨hnul, hne⟩ := not_or.mp h
      rw [nul_mem_storedRow] at hnul
      rw [storedRow_path_eq_nil] at hne
      refine ⟨hne, ?_⟩
      intro e he
      refine ⟨hkeys e he, ?_⟩
      by_contra hs
      exact hnul ⟨e, he, hs, hkeys e he⟩
  · intro ⟨hne, hall⟩
    refine ⟨_, (equalsPath_eq_ok path _).mpr ⟨fun e he => (hall e he).1, rfl⟩, ?_⟩
    intro stored
    have hbad : ¬ ('\x00' ∈ clauseText (storedRow path) ∨ (storedRow path).path = []) := by
      rw [nul_mem_storedRow, storedRow_path_eq_nil, not_or]
      refine ⟨?_, hne⟩
      intro ⟨e, he, hs, _⟩
      exact hs (hall e he).2
    rw [holds_clauseText, if_neg hbad]
    simp [storedRow_eq_iff]

theorem inPaths_selects_iff (paths : List (List PathElement)) :
    Selects (inPaths paths) paths ↔
      paths ≠ [] ∧ ∀ path ∈ paths, path ≠ [] ∧ ∀ e ∈ path, e.Storable := by
  have hbad : ('\x00' ∈ clausesText (paths.map storedRow) ∨ paths.map storedRow = [] ∨
      ∃ r ∈ paths.map storedRow, r.path = []) ↔
        (∃ path ∈ paths, ∃ e ∈ path, ¬ e.Storable ∧ e.isKey = true) ∨ paths = [] ∨
          ∃ path ∈ paths, path = [] := by
    simp only [nul_mem_clausesText, List.mem_map, exists_exists_and_eq_and, nul_mem_storedRow,
      List.map_eq_nil_iff, storedRow_path_eq_nil]
  constructor
  · intro ⟨text, htext, hholds⟩
    obtain ⟨hcompiles, rfl⟩ := (inPaths_eq_ok paths text).mp htext
    have hgood := hholds []
    rw [holds_clausesText] at hgood
    split at hgood
    · simp at hgood
    · rename_i h
      rw [hbad, not_or, not_or] at h
      obtain ⟨hnul, hne, hempty⟩ := h
      refine ⟨hne, ?_⟩
      intro path hpath
      refine ⟨fun hp => hempty ⟨path, hpath, hp⟩, ?_⟩
      intro e he
      exact (storable_iff e).mpr
        ⟨hcompiles path hpath e he, fun hs => hnul ⟨path, hpath, e, he, hs⟩⟩
  · intro ⟨hne, hall⟩
    have hcompiles : ∀ path ∈ paths, ∀ e ∈ path, e.Compiles :=
      fun path hpath e he => ((storable_iff e).mp ((hall path hpath).2 e he)).1
    refine ⟨_, (inPaths_eq_ok paths _).mpr ⟨hcompiles, rfl⟩, ?_⟩
    intro stored
    have hgood : ¬ ('\x00' ∈ clausesText (paths.map storedRow) ∨ paths.map storedRow = [] ∨
        ∃ r ∈ paths.map storedRow, r.path = []) := by
      rw [hbad, not_or, not_or]
      refine ⟨?_, hne, ?_⟩
      · intro ⟨path, hpath, e, he, hs, _⟩
        exact hs ((hall path hpath).2 e he)
      · intro ⟨path, hpath, hp⟩
        exact (hall path hpath).1 hp
    rw [holds_clausesText, if_neg hgood]
    congr 1
    apply decide_eq_decide.mpr
    rw [List.mem_map]
    constructor
    · intro ⟨path, hpath, he⟩
      rw [← storedRow_inj path stored he]
      exact hpath
    · intro hmem
      exact ⟨stored, hmem, rfl⟩

end OpenVoxDB.PathEquality
