import Mathlib.Data.List.Basic
import Mathlib.Tactic.Common

/-!
# S-expressions

A reader of texts with lists in parentheses, atoms, and strings between double quotes, in which a backslash takes the
character after it as it is. The text is cut into tokens one character at a time; what a text gives does
not depend on what follows it, if it ends between two tokens (`Lexes.append`). The tokens of expressions are read as
the expressions (`read_of_lexes`).
-/

namespace Nerve

inductive SExpr where
  | atom (name : List Char)
  | str (s : List Char)
  | list (items : List SExpr)
  deriving Repr

namespace SExpr

inductive Token where
  | opening
  | closing
  | atom (name : List Char)
  | str (s : List Char)
  deriving DecidableEq, Repr

/-! ### From characters to tokens -/

/-- Between tokens, or inside one, with what has been read of it. -/
inductive LexState where
  | blank
  | atom (read : List Char)
  | str (read : List Char)
  | escape (read : List Char)
  deriving DecidableEq, Repr

def isSpace (c : Char) : Bool := c == ' ' || c == '\n' || c == '\t' || c == '\r'

/-- An atom ends before it. -/
def isDelimiter (c : Char) : Bool := isSpace c || c == '(' || c == ')' || c == '"'

/-- A character between tokens: the token it is, and what it begins. -/
def lexBlank (c : Char) : List Token × LexState :=
  if isSpace c then ([], .blank)
  else if c = '(' then ([.opening], .blank)
  else if c = ')' then ([.closing], .blank)
  else if c = '"' then ([], .str [])
  else ([], .atom [c])

def lexStep : LexState → Char → List Token × LexState
  | .blank, c => lexBlank c
  | .atom read, c =>
    if isDelimiter c then (.atom read :: (lexBlank c).1, (lexBlank c).2) else ([], .atom (read ++ [c]))
  | .str read, c =>
    if c = '"' then ([.str read], .blank) else if c = '\\' then ([], .escape read) else ([], .str (read ++ [c]))
  | .escape read, c => ([], .str (read ++ [c]))

def lexRun : LexState → List Char → List Token × LexState
  | state, [] => ([], state)
  | state, c :: s =>
    let (ts, next) := lexStep state c
    let (us, last) := lexRun next s
    (ts ++ us, last)

/-- The tokens of a text. A string has to be closed. -/
def lex (s : List Char) : Option (List Token) :=
  match lexRun .blank s with
  | (ts, .blank) => some ts
  | (ts, .atom read) => some (ts ++ [.atom read])
  | _ => none

/-- The text gives the tokens, and ends between two. -/
def Lexes (s : List Char) (ts : List Token) : Prop := lexRun .blank s = (ts, .blank)

instance (s : List Char) (ts : List Token) : Decidable (Lexes s ts) := inferInstanceAs (Decidable (_ = _))

theorem lexRun_append (state : LexState) (s t : List Char) :
    lexRun state (s ++ t) =
      ((lexRun state s).1 ++ (lexRun (lexRun state s).2 t).1, (lexRun (lexRun state s).2 t).2) := by
  induction s generalizing state with
  | nil => rfl
  | cons c s ih => simp only [List.cons_append, lexRun, ih, List.append_assoc]

theorem Lexes.nil : Lexes [] [] := rfl

theorem Lexes.append {s t : List Char} {ts us : List Token} (hs : Lexes s ts) (ht : Lexes t us) :
    Lexes (s ++ t) (ts ++ us) := by
  rw [Lexes, lexRun_append, hs, ht]

theorem Lexes.flatMap {α : Type} {text : α → List Char} {tokens : α → List Token} (h : ∀ a, Lexes (text a) (tokens a))
    (as : List α) : Lexes (as.flatMap text) (as.flatMap tokens) := by
  induction as with
  | nil => exact .nil
  | cons a as ih => exact (h a).append ih

/-! ### From tokens to expressions -/

/-- The items of the lists that are open, the innermost first, and of the one that is read. -/
def parse : List (List SExpr) → List SExpr → List Token → Option (List SExpr)
  | [], items, [] => some items
  | _ :: _, _, [] => none
  | stack, items, .opening :: ts => parse (items :: stack) [] ts
  | [], _, .closing :: _ => none
  | outer :: stack, items, .closing :: ts => parse stack (outer ++ [.list items]) ts
  | stack, items, .atom name :: ts => parse stack (items ++ [.atom name]) ts
  | stack, items, .str s :: ts => parse stack (items ++ [.str s]) ts

/-- The expressions of a text. -/
def read (s : List Char) : Option (List SExpr) := (lex s).bind (parse [] [])

mutual

def tokens : SExpr → List Token
  | .atom name => [.atom name]
  | .str s => [.str s]
  | .list items => .opening :: (tokensOf items ++ [.closing])

def tokensOf : List SExpr → List Token
  | [] => []
  | x :: xs => tokens x ++ tokensOf xs

end

theorem tokensOf_append (xs ys : List SExpr) : tokensOf (xs ++ ys) = tokensOf xs ++ tokensOf ys := by
  induction xs with
  | nil => rfl
  | cons x xs ih => rw [List.cons_append, tokensOf, tokensOf, ih, List.append_assoc]

theorem tokensOf_map {α : Type} (f : α → SExpr) (as : List α) :
    tokensOf (as.map f) = as.flatMap fun a => tokens (f a) := by
  induction as with
  | nil => rfl
  | cons a as ih => rw [List.map_cons, tokensOf, ih, List.flatMap_cons]

mutual

theorem parse_tokens (stack : List (List SExpr)) (items : List SExpr) (ts : List Token) :
    (x : SExpr) → parse stack items (tokens x ++ ts) = parse stack (items ++ [x]) ts
  | .atom name => by rw [tokens, List.singleton_append, parse]
  | .str s => by rw [tokens, List.singleton_append, parse]
  | .list inner => by
    rw [tokens, List.cons_append, List.append_assoc, parse, parse_tokensOf, List.nil_append, List.singleton_append, parse]

theorem parse_tokensOf (stack : List (List SExpr)) (items : List SExpr) (ts : List Token) :
    (xs : List SExpr) → parse stack items (tokensOf xs ++ ts) = parse stack (items ++ xs) ts
  | [] => by rw [tokensOf, List.nil_append, List.append_nil]
  | x :: xs => by
    rw [tokensOf, List.append_assoc, parse_tokens, parse_tokensOf, List.append_assoc, List.singleton_append]

end

/-- A text that gives the tokens of some expressions is read as these. -/
theorem read_of_lexes {s : List Char} {xs : List SExpr} (h : Lexes s (tokensOf xs)) : read s = some xs := by
  have hparse := parse_tokensOf [] [] [] xs
  rw [List.append_nil, List.nil_append, parse] at hparse
  rw [read, lex, h]
  exact hparse

end SExpr

end Nerve
