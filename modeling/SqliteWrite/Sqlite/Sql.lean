import SqliteWrite.Lib.Tokens

/-! The fragment of SQL that the sources build, read from tokens by SQLite's rules. Identifiers
are read where they are quoted, as the sources always write them. -/
namespace SqliteWrite

/-- A table as a statement names it. -/
structure TableRef where
  schema : Option Bytes
  name : Bytes
  deriving DecidableEq, Repr

/-- A column definition: its name, its type, and the tokens of its constraints. -/
structure Column where
  name : Bytes
  type : Bytes
  constraints : List Token
  deriving DecidableEq, Repr

inductive Statement
  | tableXinfo (table schema : Bytes)
  | createTable (ref : TableRef) (col : Column)
  | addColumn (ref : TableRef) (col : Column)
  | insert (replace : Bool) (ref : TableRef) (cols : List Bytes) (marks : ℕ)
  | selectAll (ref : TableRef)
  deriving DecidableEq, Repr

namespace Sql

/-- The quotes of SQLite: `'`, `"` and the grave accent close themselves, `[` ends at `]`. -/
def closer : Tokens.Quotes := fun c =>
  if c = 39 ∨ c = 34 ∨ c = 96 then some c else if c = 91 then some 93 else none

def keyword (w : Bytes) : List Token → Option (List Token)
  | .word b :: ts => if fold b = w then some ts else none
  | _ => none

def keywords : List Bytes → List Token → Option (List Token)
  | [], ts => some ts
  | w :: ws, ts => (keyword w ts).bind (keywords ws)

def symbol (c : UInt8) : List Token → Option (List Token)
  | .sym d :: ts => if d = c then some ts else none
  | _ => none

/-- A quoted name; in the places where the sources put names a string literal is one too. -/
def ident : List Token → Option (Bytes × List Token)
  | .quoted _ b :: ts => some (b, ts)
  | _ => none

def literal : List Token → Option (Bytes × List Token)
  | .quoted q b :: ts => if q = 39 then some (b, ts) else none
  | _ => none

def word : List Token → Option (Bytes × List Token)
  | .word b :: ts => some (b, ts)
  | _ => none

def tableRef (ts : List Token) : Option (TableRef × List Token) :=
  (ident ts).bind fun a =>
    match symbol 46 a.2 with
    | some rest => (ident rest).map fun b => (⟨some a.1, b.1⟩, b.2)
    | none => some (⟨none, a.1⟩, a.2)

/-- Tokens that stay within one column definition: brackets match, and outside of them there is
neither a comma nor the end of the statement. -/
def constraintList : ℕ → List Token → Bool
  | depth, [] => depth == 0
  | depth, .sym c :: ts =>
    if c = 40 then constraintList (depth + 1) ts
    else if c = 41 then match depth with
      | 0 => false
      | d + 1 => constraintList d ts
    else if c = 59 then false
    else if c = 44 && depth == 0 then false
    else constraintList depth ts
  | depth, _ :: ts => constraintList depth ts

/-- What stands before the tokens `) STRICT` at the end. -/
def beforeStrict (ts : List Token) : Option (List Token) :=
  match ts.reverse with
  | .word b :: .sym c :: rest => if fold b = ascii "strict" ∧ c = 41 then some rest.reverse else none
  | _ => none

def columnDef (ts : List Token) : Option Column := do
  let (name, ts) ← ident ts
  let (type, ts) ← word ts
  if constraintList 0 ts then some ⟨name, type, ts⟩ else none

def createTable (ts : List Token) : Option Statement := do
  let ts ← keywords [ascii "create", ascii "table", ascii "if", ascii "not", ascii "exists"] ts
  let (ref, ts) ← tableRef ts
  let ts ← symbol 40 ts
  let ts ← beforeStrict ts
  let col ← columnDef ts
  some (.createTable ref col)

def addColumn (ts : List Token) : Option Statement := do
  let ts ← keywords [ascii "alter", ascii "table"] ts
  let (ref, ts) ← tableRef ts
  let ts ← keywords [ascii "add", ascii "column"] ts
  let col ← columnDef ts
  some (.addColumn ref col)

/-- The rest of a list of names after its first. -/
def moreNames : List Token → List Bytes × List Token
  | .sym c :: .quoted q b :: ts =>
    if c = 44 then (b :: (moreNames ts).1, (moreNames ts).2) else ([], .sym c :: .quoted q b :: ts)
  | ts => ([], ts)

/-- A list of names, which may be empty here. -/
def names : List Token → List Bytes × List Token
  | .quoted _ b :: ts => (b :: (moreNames ts).1, (moreNames ts).2)
  | ts => ([], ts)

/-- The rest of a list of placeholders after its first. -/
def moreMarks : List Token → ℕ × List Token
  | .sym c :: .sym d :: ts =>
    if c = 44 ∧ d = 63 then ((moreMarks ts).1 + 1, (moreMarks ts).2) else (0, .sym c :: .sym d :: ts)
  | ts => (0, ts)

/-- A list of placeholders, which may be empty here. -/
def marks : List Token → ℕ × List Token
  | .sym c :: ts => if c = 63 then ((moreMarks ts).1 + 1, (moreMarks ts).2) else (0, .sym c :: ts)
  | ts => (0, ts)

def orReplace (ts : List Token) : Bool × List Token :=
  match keywords [ascii "or", ascii "replace"] ts with
  | some rest => (true, rest)
  | none => (false, ts)

def insert (ts : List Token) : Option Statement := do
  let ts ← keyword (ascii "insert") ts
  let (replace, ts) := orReplace ts
  let ts ← keyword (ascii "into") ts
  let (ref, ts) ← tableRef ts
  let ts ← symbol 40 ts
  let (cols, ts) := names ts
  let ts ← symbol 41 ts
  let ts ← keyword (ascii "values") ts
  let ts ← symbol 40 ts
  let (n, ts) := marks ts
  let ts ← symbol 41 ts
  if ts = [] then some (.insert replace ref cols n) else none

/-- `SELECT cid,name,type FROM pragma_table_xinfo('t', 's')`. -/
def tableXinfo (ts : List Token) : Option Statement := do
  let ts ← keywords [ascii "select", ascii "cid"] ts
  let ts ← symbol 44 ts
  let ts ← keyword (ascii "name") ts
  let ts ← symbol 44 ts
  let ts ← keywords [ascii "type", ascii "from", ascii "pragma_table_xinfo"] ts
  let ts ← symbol 40 ts
  let (table, ts) ← literal ts
  let ts ← symbol 44 ts
  let (schema, ts) ← literal ts
  let ts ← symbol 41 ts
  if ts = [] then some (.tableXinfo table schema) else none

def selectAll (ts : List Token) : Option Statement := do
  let ts ← keyword (ascii "select") ts
  let ts ← symbol 42 ts
  let ts ← keyword (ascii "from") ts
  let (ref, ts) ← tableRef ts
  if ts = [] then some (.selectAll ref) else none

def statement (ts : List Token) : Option Statement :=
  createTable ts <|> addColumn ts <|> insert ts <|> tableXinfo ts <|> selectAll ts

/-- Read one statement; other texts than those of the fragment are not read. -/
def read (sql : Bytes) : Option Statement := (Tokens.tokens closer sql).bind statement

/-- Whether a text holds no statement: white space, comments and semicolons are none. -/
def blank (sql : Bytes) : Bool :=
  match Tokens.tokens closer sql with
  | some ts => ts.all (· == .sym 59)
  | none => false

lemma blank_of_word {sql w : Bytes} {ts : List Token}
    (h : (Tokens.feed closer .start (cstr sql)).1 = .word w :: ts) : blank sql = false := by
  unfold blank Tokens.tokens
  rw [h]
  cases Tokens.finish (Tokens.feed closer .start (cstr sql)).2 with
  | none => rfl
  | some last => rfl

lemma blank_insert (rest : Bytes) : blank (ascii "insert " ++ rest) = false := by
  have hword : Tokens.feed closer .start (ascii "insert ") = ([.word (ascii "insert")], .start) := by decide
  have hfeed : (Tokens.feed closer .start (cstr (ascii "insert " ++ rest))).1 =
      .word (ascii "insert") :: (Tokens.feed closer .start (cstr rest)).1 := by
    rw [cstr_append (by decide), Tokens.feed_append, hword]
    rfl
  exact blank_of_word hfeed

lemma blank_of_read {sql : Bytes} {st : Statement} (h : read sql = some st) : blank sql = false := by
  unfold read at h
  unfold blank
  cases hts : Tokens.tokens closer sql with
  | none => rfl
  | some ts =>
    rw [hts] at h
    cases ts with
    | nil => cases h
    | cons t ts =>
      cases t with
      | word w => rfl
      | quoted q b => rfl
      | sym c => cases h

/-- The number of placeholders of a text. -/
def params (sql : Bytes) : ℕ := ((Tokens.tokens closer sql).getD []).count (.sym 63)

/-- The constraints that a text adds to a column definition, if it stays within it. -/
def constraints (columnMeta : Bytes) : Option (List Token) :=
  (Tokens.settle (Tokens.feed closer .start columnMeta).2).bind fun last =>
    let ts := (Tokens.feed closer .start columnMeta).1 ++ last
    if constraintList 0 ts = true ∧ 0 ∉ columnMeta then some ts else none

end Sql
end SqliteWrite
