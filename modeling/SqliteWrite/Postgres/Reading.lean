import SqliteWrite.Postgres.Server
import SqliteWrite.Sqlite.Sql

/-! The statements of the worker, read by PostgreSQL's rules: a name without quotes is folded to lower
case and must not be a key word; a name in quotes and a string literal are kept as they are written. -/
namespace SqliteWrite.Psql

/-- What a text asks of the server. The values of an `INSERT` are the numbers of its parameters. -/
inductive Command
  | begin
  | commit
  | columns (table : Bytes)
  | createTable (table column type : Bytes)
  | addColumn (table column type : Bytes)
  | insert (table : Bytes) (columns : List Bytes) (rows : List (List ℕ))
  deriving DecidableEq, Repr

namespace Reading
open Sql (keywords symbol)

/-- The quotes of PostgreSQL. -/
def closer : Tokens.Quotes := fun c => if c = 39 ∨ c = 34 then some c else none

/-- A name, where `reserved` tells the key words that are none. -/
def name (reserved : Bytes → Bool) : Token → Option Bytes
  | .word (c :: b) =>
    if digitByte c || c == 36 || reserved (fold (c :: b)) then none else some (fold (c :: b))
  | .quoted q b => if q = 34 ∧ b ≠ [] then some b else none
  | _ => none

/-- The number of a parameter. -/
def mark : Token → Option ℕ
  | .word (c :: b) => if c = 36 then numeral b else none
  | _ => none

/-- The items of a list that commas separate. -/
def items {α : Type} (item : Token → Option α) : List Token → Option (List α × List Token)
  | [] => none
  | t :: ts => (item t).bind fun a =>
    match ts with
    | .sym c :: rest => if c = 44 then (items item rest).map fun r => (a :: r.1, r.2) else some ([a], ts)
    | _ => some ([a], ts)

/-- Rows of parameters, up to the end of the text. -/
def rows : ℕ → List Token → Option (List (List ℕ))
  | 0, _ => none
  | fuel + 1, ts => do
    let ts ← symbol 40 ts
    let (ns, ts) ← items mark ts
    let ts ← symbol 41 ts
    match ts with
    | [] => some [ns]
    | t :: rest => if t = .sym 44 then (rows fuel rest).map (ns :: ·) else none

section
variable (reserved : Bytes → Bool)

def ident : List Token → Option (Bytes × List Token)
  | [] => none
  | t :: ts => (name reserved t).map (·, ts)

def begin (ts : List Token) : Option Command := do
  let ts ← keywords [ascii "begin"] ts
  if ts = [] then some .begin else none

def commit (ts : List Token) : Option Command := do
  let ts ← keywords [ascii "commit"] ts
  if ts = [] then some .commit else none

/-- The query for the columns of a table, which is given by a string literal. -/
def columns (ts : List Token) : Option Command := do
  let ts ← keywords [ascii "select", ascii "column_name"] ts
  let ts ← symbol 44 ts
  let ts ← keywords [ascii "udt_name", ascii "from", ascii "information_schema"] ts
  let ts ← symbol 46 ts
  let ts ← keywords [ascii "columns", ascii "where", ascii "table_name"] ts
  let ts ← symbol 61 ts
  let (table, ts) ← Sql.literal ts
  if ts = [] then some (.columns table) else none

def createTable (ts : List Token) : Option Command := do
  let ts ← keywords [ascii "create", ascii "table", ascii "if", ascii "not", ascii "exists"] ts
  let (table, ts) ← ident reserved ts
  let ts ← symbol 40 ts
  let (column, ts) ← ident reserved ts
  let (type, ts) ← Sql.word ts
  let ts ← symbol 41 ts
  if ts = [] then some (.createTable table column (fold type)) else none

def addColumn (ts : List Token) : Option Command := do
  let ts ← keywords [ascii "alter", ascii "table"] ts
  let (table, ts) ← ident reserved ts
  let ts ← keywords [ascii "add", ascii "column"] ts
  let (column, ts) ← ident reserved ts
  let (type, ts) ← Sql.word ts
  if ts = [] then some (.addColumn table column (fold type)) else none

def insert (ts : List Token) : Option Command := do
  let ts ← keywords [ascii "insert", ascii "into"] ts
  let (table, ts) ← ident reserved ts
  let ts ← symbol 40 ts
  let (columns, ts) ← items (name reserved) ts
  let ts ← symbol 41 ts
  let ts ← keywords [ascii "values"] ts
  let rows ← rows ts.length ts
  some (.insert table columns rows)

def command (ts : List Token) : Option Command :=
  begin ts <|> commit ts <|> columns ts <|> createTable reserved ts <|> addColumn reserved ts <|>
    insert reserved ts

/-- Read one statement; other texts than those of this fragment are not read. -/
def read (text : Bytes) : Option Command := (Tokens.tokens closer text).bind (command reserved)

end

/-- The bytes of a name that needs no quotes. -/
def nameByte (c : UInt8) : Bool :=
  (48 ≤ c && c ≤ 57) || (65 ≤ c && c ≤ 90) || (97 ≤ c && c ≤ 122) || c == 95

/-- A valid identifier: letters, digits and underscores, not with a digit first, and not a key word. -/
structure Identifier (reserved : Bytes → Bool) (n : Bytes) : Prop where
  nonempty : n ≠ []
  bytes : n.all nameByte = true
  first : ∀ c ∈ n.head?, digitByte c = false
  free : reserved (fold n) = false

instance (reserved : Bytes → Bool) (n : Bytes) : Decidable (Identifier reserved n) :=
  haveI : Decidable (∀ c ∈ n.head?, digitByte c = false) := Option.decidableForallMem n.head?
  decidable_of_iff (n ≠ [] ∧ n.all nameByte = true ∧ (∀ c ∈ n.head?, digitByte c = false) ∧
      reserved (fold n) = false)
    ⟨fun ⟨h1, h2, h3, h4⟩ => ⟨h1, h2, h3, h4⟩, fun h => ⟨h.nonempty, h.bytes, h.first, h.free⟩⟩

section Words
open Tokens

lemma wordByte_nameByte {c : UInt8} (h : nameByte c = true) : wordByte c = true := by
  simp only [nameByte, Bool.or_eq_true] at h
  simp only [wordByte, Bool.or_eq_true]
  rcases h with ((h | h) | h) | h
  · simp [h]
  · simp [h]
  · simp [h]
  · simp [h]

lemma wordByte_digitByte {c : UInt8} (h : digitByte c = true) : wordByte c = true := by
  unfold digitByte at h
  unfold wordByte
  rw [h]
  rfl

lemma closer_wordByte {c : UInt8} (h : wordByte c = true) : closer c = none := by
  unfold closer
  rw [if_neg]
  rintro (rfl | rfl)
  · exact absurd h (by decide)
  · exact absurd h (by decide)

lemma nul_words {n : Bytes} (h : n.all wordByte = true) : (0 : UInt8) ∉ n := fun h0 =>
  absurd (List.all_eq_true.mp h 0 h0) (by decide)

variable {reserved : Bytes → Bool} {n : Bytes}

lemma Identifier.words (h : Identifier reserved n) : n.all wordByte = true := by
  apply List.all_eq_true.mpr
  intro c hc
  exact wordByte_nameByte (List.all_eq_true.mp h.bytes c hc)

lemma Identifier.nul (h : Identifier reserved n) : (0 : UInt8) ∉ n := nul_words h.words

lemma Identifier.quote (h : Identifier reserved n) {q : UInt8} (hq : nameByte q = false) : q ∉ n := by
  intro hm
  have hbyte := List.all_eq_true.mp h.bytes q hm
  rw [hq] at hbyte
  cases hbyte

lemma Identifier.feed (h : Identifier reserved n) : feed closer .start n = ([], .word n) :=
  feed_bare h.nonempty h.words fun _ => closer_wordByte

lemma Identifier.name_word (h : Identifier reserved n) : name reserved (.word n) = some (fold n) := by
  cases n with
  | nil => exact absurd rfl h.nonempty
  | cons c b =>
    have hfirst := h.first c rfl
    have hdollar : (c == 36) = false := by
      apply beq_eq_false_iff_ne.mpr
      rintro rfl
      exact h.quote (q := 36) (by decide) List.mem_cons_self
    simp [name, hfirst, hdollar, h.free]

lemma Identifier.name_quoted (h : Identifier reserved n) : name reserved (.quoted 34 n) = some n := by
  simp [name, h.nonempty]

lemma decimal_words (n : ℕ) : (decimal n).all wordByte = true := by
  apply List.all_eq_true.mpr
  intro c hc
  exact wordByte_digitByte (List.all_eq_true.mp (decimal_digits n).2.1 c hc)

lemma mark_decimal (n : ℕ) : mark (.word (36 :: decimal n)) = some n := by
  simp [mark]

/-- The tokens of a list behind its first item. -/
def more (ts : List Token) : List Token := ts.flatMap fun t => [.sym 44, t]

lemma items_more {α : Type} {item : Token → Option α} {t : Token} {a : α} (ht : item t = some a)
    {ts : List Token} {as : List α} (h : List.Forall₂ (fun t a => item t = some a) ts as) {c : UInt8}
    (hc : c ≠ 44) (rest : List Token) :
    items item (t :: more ts ++ .sym c :: rest) = some (a :: as, .sym c :: rest) := by
  induction h generalizing t a with
  | nil => simp [more, items, ht, hc]
  | cons hu h ih =>
    have hnext := ih hu
    simp only [more, List.cons_append, List.flatMap_cons, List.nil_append] at hnext ⊢
    rw [items, ht]
    simp only [Option.bind_some, if_true]
    rw [hnext]
    rfl

lemma feed_nameList {fields : List Bytes} (h : ∀ f ∈ fields, Identifier reserved f) (acc : Bytes) :
    Tokens.feed closer (.word acc) (nameList false fields ++ ascii ") values ") =
      (.word acc :: more (fields.map .word) ++ [.sym 41, .word (ascii "values")], .start) := by
  induction fields generalizing acc with
  | nil => rfl
  | cons f fields ih =>
    have hcomma : Tokens.feed closer (.word acc) (ascii ",") = ([.word acc, .sym 44], .start) := rfl
    have hnext := ih (fun g hg => h g (List.mem_cons_of_mem _ hg)) f
    have hall := feed_append_of (feed_append_of hcomma (h f List.mem_cons_self).feed) hnext
    simpa [nameList, comma, more] using hall

/-- The tokens of parameters. -/
def markTokens (ns : List ℕ) : List Token := ns.map fun n => .word (36 :: decimal n)

lemma forall₂_marks (ns : List ℕ) : List.Forall₂ (fun t n => mark t = some n) (markTokens ns) ns := by
  induction ns with
  | nil => exact .nil
  | cons n ns ih => exact .cons (mark_decimal n) ih

lemma forall₂_names {fields : List Bytes} (h : ∀ f ∈ fields, Identifier reserved f) :
    List.Forall₂ (fun t f => name reserved t = some f) (fields.map .word) (fields.map fold) := by
  induction fields with
  | nil => exact .nil
  | cons f fields ih =>
    exact .cons (h f List.mem_cons_self).name_word (ih fun g hg => h g (List.mem_cons_of_mem _ hg))

lemma feed_mark (n : ℕ) : Tokens.feed closer .start (ascii "$" ++ decimal n) = ([], .word (36 :: decimal n)) := by
  have hdollar : Tokens.feed closer .start (ascii "$") = ([], .word (ascii "$")) := rfl
  exact feed_append_of hdollar (feed_word (ascii "$") (decimal n) (decimal_words n))

lemma markRow_ctr (first : Bool) (ctr : ℕ) (fields : List Bytes) :
    (markRow first ctr fields).2 = ctr + fields.length := by
  induction fields generalizing first ctr with
  | nil => rfl
  | cons f fields ih =>
    have hnext := ih false (ctr + 1)
    simp only [markRow, hnext, List.length_cons]
    omega

lemma feed_markRow (fields : List Bytes) (ctr : ℕ) (acc : Bytes) :
    Tokens.feed closer (.word acc) ((markRow false ctr fields).1 ++ ascii ")") =
      (.word acc :: more (markTokens (List.range' ctr fields.length)) ++ [.sym 41], .start) := by
  induction fields generalizing ctr acc with
  | nil => rfl
  | cons f fields ih =>
    have hcomma : Tokens.feed closer (.word acc) (ascii ",") = ([.word acc, .sym 44], .start) := rfl
    have hall := feed_append_of (feed_append_of hcomma (feed_mark ctr)) (ih (ctr + 1) (36 :: decimal ctr))
    simpa [markRow, comma, more, markTokens, List.range'_succ] using hall

/-- The numbers of the parameters of so many rows. -/
def numbers (k : ℕ) : ℕ → ℕ → List (List ℕ)
  | _, 0 => []
  | ctr, n + 1 => List.range' ctr k :: numbers k (ctr + k) n

/-- The tokens of the rows. -/
def rowTokens : Bool → List (List ℕ) → List Token
  | _, [] => []
  | first, ns :: rest =>
    (if first then [] else [.sym 44]) ++ .sym 40 :: (markTokens ns).take 1 ++ more ((markTokens ns).drop 1) ++
      .sym 41 :: rowTokens false rest

lemma feed_markRows (fields : List Bytes) (hne : fields ≠ []) (first : Bool) (ctr n : ℕ) :
    Tokens.feed closer .start (markRows fields first ctr n) =
      (rowTokens first (numbers fields.length ctr n), .start) := by
  induction n generalizing first ctr with
  | zero => rfl
  | succ n ih =>
    obtain ⟨f, fields', rfl⟩ := List.exists_cons_of_ne_nil hne
    have hnext := ih false (ctr + (fields'.length + 1))
    have hopen : Tokens.feed closer .start (comma first ++ ascii "(") =
        ((if first then [] else [.sym 44]) ++ [.sym 40], .start) := by
      cases first <;> rfl
    have hrow := feed_append_of (feed_append_of hopen (feed_mark ctr))
      (feed_markRow fields' (ctr + 1) (36 :: decimal ctr))
    have hall := feed_append_of hrow hnext
    simp only [markRows, markRow_ctr]
    simpa [markRow, comma, numbers, rowTokens, markTokens, List.range'_succ] using hall

lemma rowTokens_false (ns : List ℕ) (rest : List (List ℕ)) :
    rowTokens false (ns :: rest) = .sym 44 :: rowTokens true (ns :: rest) := rfl

lemma rowTokens_length (first : Bool) (nss : List (List ℕ)) : nss.length ≤ (rowTokens first nss).length := by
  induction nss generalizing first with
  | nil => exact Nat.zero_le _
  | cons ns rest ih =>
    have hrest := ih false
    simp only [rowTokens, List.length_cons, List.length_append]
    omega

lemma rows_row (fuel : ℕ) {ns : List ℕ} (hne : ns ≠ []) (rest : List (List ℕ)) :
    rows (fuel + 1) (rowTokens true (ns :: rest)) =
      match rowTokens false rest with
      | [] => some [ns]
      | t :: ts => if t = .sym 44 then (rows fuel ts).map (ns :: ·) else none := by
  obtain ⟨n, ns, rfl⟩ := List.exists_cons_of_ne_nil hne
  have hitems := items_more (mark_decimal n) (forall₂_marks ns) (c := 41) (by decide) (rowTokens false rest)
  have htokens : rowTokens true ((n :: ns) :: rest) =
      .sym 40 :: (.word (36 :: decimal n) :: more (markTokens ns) ++ .sym 41 :: rowTokens false rest) := by
    simp [rowTokens, markTokens]
  rw [htokens]
  change (items mark _).bind _ = _
  rw [hitems]
  rfl

lemma rows_tokens {nss : List (List ℕ)} (hne : nss ≠ []) (hrows : ∀ ns ∈ nss, ns ≠ []) {fuel : ℕ}
    (hfuel : nss.length ≤ fuel) : rows fuel (rowTokens true nss) = some nss := by
  induction nss generalizing fuel with
  | nil => exact absurd rfl hne
  | cons ns rest ih =>
    have hns := hrows ns List.mem_cons_self
    cases fuel with
    | zero => simp at hfuel
    | succ fuel =>
      rw [rows_row fuel hns rest]
      cases rest with
      | nil => rfl
      | cons ns₂ rest =>
        have hlen : (ns₂ :: rest).length ≤ fuel := Nat.le_of_succ_le_succ hfuel
        have hnext := ih (by simp) (fun ns h => hrows ns (List.mem_cons_of_mem _ h)) hlen
        rw [rowTokens_false]
        simp only [if_true, hnext]
        rfl

lemma numbers_length (k ctr n : ℕ) : (numbers k ctr n).length = n := by
  induction n generalizing ctr with
  | zero => rfl
  | succ n ih => simp [numbers, ih]

lemma numbers_width (k ctr n : ℕ) : ∀ ns ∈ numbers k ctr n, ns.length = k := by
  induction n generalizing ctr with
  | zero => simp [numbers]
  | succ n ih =>
    intro ns hns
    rcases List.mem_cons.mp hns with rfl | hns
    · exact List.length_range'
    · exact ih (ctr + k) ns hns

lemma numbers_ne_nil {k : ℕ} (hk : k ≠ 0) (ctr n : ℕ) : ∀ ns ∈ numbers k ctr n, ns ≠ [] := by
  intro ns hns hnil
  rw [hnil] at hns
  exact hk (numbers_width k ctr n [] hns).symm

lemma numbers_flatten (k ctr n : ℕ) : (numbers k ctr n).flatten = List.range' ctr (n * k) := by
  induction n generalizing ctr with
  | zero => simp [numbers]
  | succ n ih => rw [numbers, List.flatten_cons, ih, List.range'_append_1, Nat.succ_mul, Nat.add_comm k]

lemma nul_nameList {fields : List Bytes} (h : ∀ f ∈ fields, Identifier reserved f) (first : Bool) :
    (0 : UInt8) ∉ nameList first fields := by
  induction fields generalizing first with
  | nil => simp [nameList]
  | cons f fields ih =>
    have hf := (h f List.mem_cons_self).nul
    have hrest := ih (fun g hg => h g (List.mem_cons_of_mem _ hg)) false
    cases first <;> simp [nameList, comma, ascii, hf, hrest]

lemma nul_markRow (fields : List Bytes) (first : Bool) (ctr : ℕ) : (0 : UInt8) ∉ (markRow first ctr fields).1 := by
  induction fields generalizing first ctr with
  | nil => simp [markRow]
  | cons f fields ih =>
    have hctr := nul_words (decimal_words ctr)
    cases first <;> simp [markRow, comma, ascii, hctr, ih false (ctr + 1)]

lemma nul_markRows (fields : List Bytes) (first : Bool) (ctr n : ℕ) :
    (0 : UInt8) ∉ markRows fields first ctr n := by
  induction n generalizing first ctr with
  | zero => simp [markRows]
  | succ n ih =>
    have hrow := nul_markRow fields true ctr
    have hrest := ih false (markRow true ctr fields).2
    cases first <;> simp [markRows, comma, ascii, hrow, hrest]

lemma nul_columnType (v : VarT) : (0 : UInt8) ∉ columnType v := by
  cases v <;> simp [columnType, ascii]

lemma feed_columnType (v : VarT) :
    Tokens.feed closer .start (columnType v) = ([], .word (columnType v)) := by
  cases v <;> rfl

lemma command_create (ts : List Token) : command reserved (.word (ascii "create") :: ts) =
    createTable reserved (.word (ascii "create") :: ts) := by
  have hlast : ∀ x : Option Command, (x <|> none) = x := fun x => by cases x <;> rfl
  exact hlast _

lemma command_alter (ts : List Token) : command reserved (.word (ascii "ALTER") :: ts) =
    addColumn reserved (.word (ascii "ALTER") :: ts) := by
  have hlast : ∀ x : Option Command, (x <|> none) = x := fun x => by cases x <;> rfl
  exact hlast _

lemma command_insert (ts : List Token) : command reserved (.word (ascii "insert") :: ts) =
    insert reserved (.word (ascii "insert") :: ts) := rfl

section Texts
variable {table : Bytes}

lemma read_schema (h0 : (0 : UInt8) ∉ table) (hq : (39 : UInt8) ∉ table) :
    read reserved (Statement.schema table).text = some (.columns table) := by
  have hhead : Tokens.feed closer .start
      (ascii "SELECT column_name, udt_name FROM information_schema.columns where table_name='") =
      ([.word (ascii "SELECT"), .word (ascii "column_name"), .sym 44, .word (ascii "udt_name"),
        .word (ascii "FROM"), .word (ascii "information_schema"), .sym 46, .word (ascii "columns"),
        .word (ascii "where"), .word (ascii "table_name"), .sym 61], .quote 39 39 []) := by decide +kernel
  have hlast : Tokens.feed closer (.quote 39 39 table) (ascii "'") = ([], .closing 39 39 table) := rfl
  have hall := feed_append_of (feed_append_of hhead (feed_quote 39 39 [] table hq)) hlast
  have hnul : (0 : UInt8) ∉ (Statement.schema table).text := by simp [Statement.text, ascii, h0]
  have htokens := tokens_of_feed hnul hall rfl
  unfold read
  rw [htokens]
  rfl

lemma read_create {field : Bytes} (ht : Identifier reserved table) (hf : Identifier reserved field) (v : VarT) :
    read reserved (Statement.create table field (columnType v)).text =
      some (.createTable (fold table) (fold field) (fold (columnType v))) := by
  have h1 : Tokens.feed closer .start (ascii "create table if not exists ") =
      ([.word (ascii "create"), .word (ascii "table"), .word (ascii "if"), .word (ascii "not"),
        .word (ascii "exists")], .start) := rfl
  have h2 : Tokens.feed closer (.word table) (ascii " ( ") = ([.word table, .sym 40], .start) := rfl
  have h3 : Tokens.feed closer (.word field) (ascii " ") = ([.word field], .start) := rfl
  have h4 : Tokens.feed closer (.word (columnType v)) (ascii " )") =
      ([.word (columnType v), .sym 41], .start) := rfl
  have hall := feed_append_of (feed_append_of (feed_append_of (feed_append_of (feed_append_of
    (feed_append_of h1 ht.feed) h2) hf.feed) h3) (feed_columnType v)) h4
  have hnul : (0 : UInt8) ∉ (Statement.create table field (columnType v)).text := by
    simp [Statement.text, ascii, ht.nul, hf.nul, nul_columnType v]
  have htokens := tokens_of_feed hnul hall rfl
  unfold read
  rw [htokens]
  change command reserved (.word (ascii "create") :: _) = _
  rw [command_create]
  change ((name reserved (.word table)).map _).bind _ = _
  rw [ht.name_word]
  change ((name reserved (.word field)).map _).bind _ = _
  rw [hf.name_word]
  rfl

lemma read_alter {field : Bytes} (ht : Identifier reserved table) (hf : Identifier reserved field) (v : VarT) :
    read reserved (Statement.alter table field (columnType v)).text =
      some (.addColumn table field (fold (columnType v))) := by
  have h1 : Tokens.feed closer .start (ascii "ALTER table \"") =
      ([.word (ascii "ALTER"), .word (ascii "table")], .quote 34 34 []) := rfl
  have h2 : Tokens.feed closer (.quote 34 34 table) (ascii "\" add column \"") =
      ([.quoted 34 table, .word (ascii "add"), .word (ascii "column")], .quote 34 34 []) := rfl
  have h3 : Tokens.feed closer (.quote 34 34 field) (ascii "\" ") = ([.quoted 34 field], .start) := rfl
  have hall := feed_append_of (feed_append_of (feed_append_of (feed_append_of (feed_append_of h1
    (feed_quote 34 34 [] table (ht.quote (by decide)))) h2)
    (feed_quote 34 34 [] field (hf.quote (by decide)))) h3) (feed_columnType v)
  have hnul : (0 : UInt8) ∉ (Statement.alter table field (columnType v)).text := by
    simp [Statement.text, ascii, ht.nul, hf.nul, nul_columnType v]
  have htokens := tokens_of_feed hnul hall rfl
  unfold read
  rw [htokens]
  change command reserved (.word (ascii "ALTER") :: _) = _
  rw [command_alter]
  change ((name reserved (.quoted 34 table)).map _).bind _ = _
  rw [ht.name_quoted]
  change ((name reserved (.quoted 34 field)).map _).bind _ = _
  rw [hf.name_quoted]
  rfl

lemma read_insert {fields : List Bytes} (ht : Identifier reserved table)
    (hf : ∀ f ∈ fields, Identifier reserved f) (hne : fields ≠ []) {n : ℕ} (hn : n ≠ 0) :
    read reserved (insertText table fields n) =
      some (.insert (fold table) (fields.map fold) (numbers fields.length 1 n)) := by
  obtain ⟨f, fields, rfl⟩ := List.exists_cons_of_ne_nil hne
  have hfirst := hf f List.mem_cons_self
  have hothers : ∀ g ∈ fields, Identifier reserved g := fun g hg => hf g (List.mem_cons_of_mem _ hg)
  have h1 : Tokens.feed closer .start (ascii "insert into ") =
      ([.word (ascii "insert"), .word (ascii "into")], .start) := rfl
  have h2 : Tokens.feed closer (.word table) (ascii " (") = ([.word table, .sym 40], .start) := rfl
  have hlist := feed_append_of hfirst.feed (feed_nameList hothers f)
  have hall := feed_append_of (feed_append_of (feed_append_of (feed_append_of h1 ht.feed) h2) hlist)
    (feed_markRows (f :: fields) hne true 1 n)
  have htext : insertText table (f :: fields) n = ascii "insert into " ++ table ++ ascii " (" ++
      (f ++ (nameList false fields ++ ascii ") values ")) ++ markRows (f :: fields) true 1 n := by
    simp [insertText, nameList, comma]
  have hnul : (0 : UInt8) ∉ insertText table (f :: fields) n := by
    simp [insertText, ascii, ht.nul, nul_nameList hf true, nul_markRows (f :: fields) true 1 n]
  have htokens : tokens closer (insertText table (f :: fields) n) = some (.word (ascii "insert") ::
      .word (ascii "into") :: .word table :: .sym 40 :: (.word f :: more (fields.map .word) ++ .sym 41 ::
        .word (ascii "values") :: rowTokens true (numbers (f :: fields).length 1 n))) := by
    rw [htext] at hnul ⊢
    rw [tokens_of_feed hnul hall rfl]
    simp
  have hitems := items_more hfirst.name_word (forall₂_names hothers) (c := 41) (by decide)
    (.word (ascii "values") :: rowTokens true (numbers (f :: fields).length 1 n))
  have hsome : numbers (f :: fields).length 1 n ≠ [] :=
    List.ne_nil_of_length_pos (by rw [numbers_length]; omega)
  have hnumbers := rows_tokens hsome (numbers_ne_nil (by simp) 1 n) (rowTokens_length true _)
  unfold read
  rw [htokens]
  change ((name reserved (.word table)).map _).bind _ = _
  rw [ht.name_word]
  change (items (name reserved) _).bind _ = _
  rw [hitems]
  change (rows _ (rowTokens true _)).bind _ = _
  rw [hnumbers]
  rfl

end Texts

end Words
end Reading
end SqliteWrite.Psql
