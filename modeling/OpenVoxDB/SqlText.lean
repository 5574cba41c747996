import Mathlib

/-!
# The text of SQL

Words, string constants and symbols of a part of a statement, by PostgreSQL's rules for standard
conforming strings: within a constant two quotes are one, and a quote alone ends it. Comments,
other kinds of constants and quoted identifiers are beyond it.
-/

namespace OpenVoxDB.SqlText

inductive Token where
  | word (chars : List Char)
  | constant (chars : List Char)
  | symbol (c : Char)
  deriving DecidableEq, Repr

inductive Phase where
  | between
  | word (chars : List Char)
  | constant (chars : List Char)
  /-- Behind a quote in a constant, which ends it unless another one follows. -/
  | quote (chars : List Char)
  deriving DecidableEq

structure Lexer where
  tokens : List Token
  phase : Phase
  deriving DecidableEq

def isSpace (c : Char) : Bool := c ∈ [' ', '\t', '\n', '\r', '\x0b', '\x0c']

def isSymbol (c : Char) : Bool := c ∈ ['(', ')', '[', ']', ',', '=', '~']

def isWord (c : Char) : Bool := c.isAlphanum || c = '_' || c = '.'

/-- A character that is in no word or constant. -/
def begin (tokens : List Token) (c : Char) : Option Lexer :=
  if c = '\'' then some ⟨tokens, .constant []⟩
  else if isSpace c then some ⟨tokens, .between⟩
  else if isSymbol c then some ⟨tokens ++ [.symbol c], .between⟩
  else if isWord c then some ⟨tokens, .word [c]⟩
  else none

def step (l : Lexer) (c : Char) : Option Lexer :=
  match l.phase with
  | .between => begin l.tokens c
  | .word chars =>
    if c = '\'' then none
    else if isWord c then some { l with phase := .word (chars ++ [c]) }
    else begin (l.tokens ++ [.word chars]) c
  | .constant chars =>
    if c = '\'' then some { l with phase := .quote chars }
    else some { l with phase := .constant (chars ++ [c]) }
  | .quote chars =>
    if c = '\'' then some { l with phase := .constant (chars ++ [c]) }
    else begin (l.tokens ++ [.constant chars]) c

/-- The tokens of a text that ends in none of them. -/
def Lexer.result (l : Lexer) : Option (List Token) :=
  match l.phase with
  | .between => some l.tokens
  | .word chars => some (l.tokens ++ [.word chars])
  | .constant _ => none
  | .quote chars => some (l.tokens ++ [.constant chars])

/-- Reading on. -/
def advance (l : Lexer) (chars : List Char) : Option Lexer := chars.foldlM step l

def lexChars (chars : List Char) : Option (List Token) :=
  (advance ⟨[], .between⟩ chars).bind Lexer.result

/-- The tokens of a text, which a text with NUL does not have. -/
def lex (chars : List Char) : Option (List Token) :=
  if '\x00' ∈ chars then none else lexChars chars

@[simp] theorem advance_nil (l : Lexer) : advance l [] = some l := rfl

@[simp] theorem advance_cons (l : Lexer) (c : Char) (chars : List Char) :
    advance l (c :: chars) = (step l c).bind fun l' => advance l' chars := rfl

theorem advance_append (l : Lexer) (chars chars' : List Char) :
    advance l (chars ++ chars') = (advance l chars).bind fun l' => advance l' chars' := by
  rw [advance, List.foldlM_append]
  rfl

/-! ## Tokens that are read before -/

/-- The lexer behind tokens. -/
def Lexer.after (tokens : List Token) (l : Lexer) : Lexer := ⟨tokens ++ l.tokens, l.phase⟩

theorem begin_after (tokens tokens' : List Token) (c : Char) :
    begin (tokens ++ tokens') c = (begin tokens' c).map (Lexer.after tokens) := by
  unfold begin
  split
  · rfl
  · split
    · rfl
    · split
      · simp [Lexer.after]
      · split
        · rfl
        · rfl

theorem step_after (tokens : List Token) (l : Lexer) (c : Char) :
    step (l.after tokens) c = (step l c).map (Lexer.after tokens) := by
  obtain ⟨tokens', phase⟩ := l
  cases phase with
  | between => exact begin_after tokens tokens' c
  | word chars =>
    simp only [step, Lexer.after, List.append_assoc]
    split
    · rfl
    · split
      · rfl
      · exact begin_after tokens _ c
  | constant chars =>
    simp only [step, Lexer.after]
    split
    · rfl
    · rfl
  | quote chars =>
    simp only [step, Lexer.after, List.append_assoc]
    split
    · rfl
    · exact begin_after tokens _ c

theorem advance_after (tokens : List Token) (chars : List Char) (l : Lexer) :
    advance (l.after tokens) chars = (advance l chars).map (Lexer.after tokens) := by
  induction chars generalizing l with
  | nil => rfl
  | cons c chars ih =>
    rw [advance_cons, advance_cons, step_after]
    cases step l c with
    | none => rfl
    | some l' => exact ih l'

/-- A text that is read as these tokens wherever it stands. -/
def Lexes (chars : List Char) (tokens : List Token) : Prop :=
  ∀ before, advance ⟨before, .between⟩ chars = some ⟨before ++ tokens, .between⟩

theorem lexes_nil : Lexes [] [] := by
  intro before
  simp

theorem Lexes.append {chars chars' : List Char} {tokens tokens' : List Token}
    (h : Lexes chars tokens) (h' : Lexes chars' tokens') :
    Lexes (chars ++ chars') (tokens ++ tokens') := by
  intro before
  rw [advance_append, h before, Option.bind_some, h', List.append_assoc]

theorem lexes_of_start (chars : List Char) (tokens : List Token)
    (h : advance ⟨[], .between⟩ chars = some ⟨tokens, .between⟩) : Lexes chars tokens := by
  intro before
  have hafter := advance_after before chars ⟨[], .between⟩
  rw [h] at hafter
  simpa [Lexer.after] using hafter

theorem lexChars_of_lexes (chars : List Char) (tokens : List Token) (h : Lexes chars tokens) :
    lexChars chars = some tokens := by
  rw [lexChars, h []]
  rfl

/-! ## Constants -/

/-- The text of a constant. -/
def constantText (chars : List Char) : List Char :=
  '\'' :: (chars.flatMap (fun c => if c = '\'' then ['\'', '\''] else [c]) ++ ['\''])

theorem mem_constantText (chars : List Char) (c : Char) (hc : c ≠ '\'') :
    c ∈ constantText chars ↔ c ∈ chars := by
  simp only [constantText, List.mem_cons, List.mem_append, List.mem_flatMap, List.not_mem_nil,
    or_false]
  constructor
  · intro h
    obtain h | ⟨d, hd, h⟩ | h := h
    · exact absurd h hc
    · split at h
      · simp [hc] at h
      · rw [List.mem_singleton.mp h]
        exact hd
    · exact absurd h hc
  · intro h
    exact Or.inr (Or.inl ⟨c, h, by simp [hc]⟩)

/-- A character of joined texts that is not in the separator is in one of them. -/
theorem mem_intercalate (separator : List Char) (texts : List (List Char)) (c : Char)
    (hc : c ∉ separator) : c ∈ separator.intercalate texts ↔ ∃ text ∈ texts, c ∈ text := by
  induction texts with
  | nil => simp [List.intercalate]
  | cons text texts ih =>
    cases texts with
    | nil => simp [List.intercalate]
    | cons text' texts =>
      have hcons : separator.intercalate (text :: text' :: texts) =
          text ++ (separator ++ separator.intercalate (text' :: texts)) := by
        simp [List.intercalate]
      rw [hcons, List.mem_append, List.mem_append, ih]
      simp [hc]

theorem advance_constant (tokens : List Token) (read chars : List Char) :
    advance ⟨tokens, .constant read⟩
        (chars.flatMap (fun c => if c = '\'' then ['\'', '\''] else [c]) ++ ['\'']) =
      some ⟨tokens, .quote (read ++ chars)⟩ := by
  induction chars generalizing read with
  | nil => simp [step]
  | cons c chars ih =>
    rw [List.flatMap_cons, List.append_assoc, advance_append]
    by_cases h : c = '\''
    · have hpair : advance ⟨tokens, .constant read⟩ (if c = '\'' then ['\'', '\''] else [c]) =
          some ⟨tokens, .constant (read ++ [c])⟩ := by simp [h, step]
      rw [hpair, Option.bind_some, ih]
      simp
    · have hone : advance ⟨tokens, .constant read⟩ (if c = '\'' then ['\'', '\''] else [c]) =
          some ⟨tokens, .constant (read ++ [c])⟩ := by simp [h, step]
      rw [hone, Option.bind_some, ih]
      simp

/-- The text of a constant and a symbol behind it, whatever the constant is. -/
theorem lexes_constantText (chars : List Char) (c : Char) (hc : isSymbol c = true) :
    Lexes (constantText chars ++ [c]) [.constant chars, .symbol c] := by
  intro tokens
  have hquote : c ≠ '\'' := by
    intro he
    subst he
    exact absurd hc (by decide)
  have hspace : isSpace c = false := by
    by_contra hs
    rw [Bool.not_eq_false] at hs
    simp only [isSpace, isSymbol, decide_eq_true_eq, List.mem_cons, List.not_mem_nil,
      or_false] at hs hc
    obtain rfl | rfl | rfl | rfl | rfl | rfl := hs <;> exact absurd hc (by decide)
  have hopen : step ⟨tokens, .between⟩ '\'' = some ⟨tokens, .constant []⟩ := by
    simp [step, begin]
  rw [constantText, List.cons_append, advance_cons, hopen, Option.bind_some, advance_append,
    advance_constant]
  simp [step, begin, hquote, hspace, hc]

end OpenVoxDB.SqlText
