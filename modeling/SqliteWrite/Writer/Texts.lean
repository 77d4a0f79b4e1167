import SqliteWrite.Sqlite.Relational
import SqliteWrite.Writer.SQLiteWriter

/-! The texts of the writer, read by SQLite's rules: for names without quotes each text is one
statement, about the table and the columns that the caller named. -/
namespace SqliteWrite

/-- A name that the quotes around it hold together. -/
def PlainName (n : Bytes) : Prop := 34 ∉ n ∧ 39 ∉ n ∧ 0 ∉ n

instance (n : Bytes) : Decidable (PlainName n) :=
  inferInstanceAs (Decidable (34 ∉ n ∧ 39 ∉ n ∧ 0 ∉ n))

/-- The table that a name stands for in a statement, split at its first dot. -/
def tableRef (table : Bytes) : TableRef :=
  match table.findIdx? (· == 46) with
  | none => ⟨none, table⟩
  | some pos => ⟨some (table.take pos), table.drop (pos + 1)⟩

lemma splitTable_eq (table : Bytes) :
    splitTable table = ((tableRef table).schema.getD Db.mainSchema, (tableRef table).name) := by
  unfold splitTable tableRef
  cases table.findIdx? (· == 46) <;> rfl

namespace Texts
open Tokens

/-- The tokens of a table name but for its last, which its closing quote leaves open. -/
def schemaTokens (ref : TableRef) : List Token :=
  match ref.schema with
  | none => []
  | some s => [.quoted 34 s, .sym 46]

lemma feed_inside {q : UInt8} {n : Bytes} (h : q ∉ n) :
    feed Sql.closer (.quote q q []) n = ([], .quote q q n) := by
  simpa using feed_quote q q [] n h

lemma feed_quoteTableName {table : Bytes} (h : PlainName table) :
    feed Sql.closer .start (quoteTableName table) =
      (schemaTokens (tableRef table), .closing 34 34 (tableRef table).name) := by
  unfold quoteTableName tableRef schemaTokens
  cases table.findIdx? (· == 46) with
  | none =>
    have h1 : feed Sql.closer .start (ascii "\"") = ([], .quote 34 34 []) := rfl
    have h3 : feed Sql.closer (.quote 34 34 table) (ascii "\"") = ([], .closing 34 34 table) := rfl
    exact feed_append_of (feed_append_of h1 (feed_inside h.1)) h3
  | some pos =>
    have hs : 34 ∉ table.take pos := fun hm => h.1 (List.mem_of_mem_take hm)
    have hn : 34 ∉ table.drop (pos + 1) := fun hm => h.1 (List.mem_of_mem_drop hm)
    have h1 : feed Sql.closer .start (ascii "\"") = ([], .quote 34 34 []) := rfl
    have h3 : feed Sql.closer (.quote 34 34 (table.take pos)) (ascii "\".\"") =
        ([.quoted 34 (table.take pos), .sym 46], .quote 34 34 []) := rfl
    have h5 : feed Sql.closer (.quote 34 34 (table.drop (pos + 1))) (ascii "\"") =
        ([], .closing 34 34 (table.drop (pos + 1))) := rfl
    exact feed_append_of (feed_append_of (feed_append_of (feed_append_of h1 (feed_inside hs)) h3)
      (feed_inside hn)) h5

lemma plain_tableRef {table : Bytes} (h : PlainName table) :
    PlainName (tableRef table).name ∧ ∀ s, (tableRef table).schema = some s → PlainName s := by
  unfold tableRef
  cases table.findIdx? (· == 46) with
  | none => exact ⟨h, by simp⟩
  | some pos =>
    refine ⟨⟨fun hm => h.1 (List.mem_of_mem_drop hm), fun hm => h.2.1 (List.mem_of_mem_drop hm),
      fun hm => h.2.2 (List.mem_of_mem_drop hm)⟩, ?_⟩
    rintro s ⟨⟩
    exact ⟨fun hm => h.1 (List.mem_of_mem_take hm), fun hm => h.2.1 (List.mem_of_mem_take hm),
      fun hm => h.2.2 (List.mem_of_mem_take hm)⟩

lemma plain_splitTable {table : Bytes} (h : PlainName table) :
    PlainName (splitTable table).1 ∧ PlainName (splitTable table).2 := by
  obtain ⟨hn, hs⟩ := plain_tableRef h
  rw [splitTable_eq]
  refine ⟨?_, hn⟩
  cases hsch : (tableRef table).schema with
  | none => simp only [Option.getD_none]; decide
  | some s => exact hs s hsch

lemma nul_quoteTableName {table : Bytes} (h : PlainName table) : (0 : UInt8) ∉ quoteTableName table := by
  unfold quoteTableName
  cases table.findIdx? (· == 46) with
  | none => simp [ascii, h.2.2]
  | some pos =>
    have hs : (0 : UInt8) ∉ table.take pos := fun hm => h.2.2 (List.mem_of_mem_take hm)
    have hn : (0 : UInt8) ∉ table.drop (pos + 1) := fun hm => h.2.2 (List.mem_of_mem_drop hm)
    simp [ascii, hs, hn]

lemma nul_columnType (v : VarT) : (0 : UInt8) ∉ columnType v := by
  cases v <;> simp [columnType, ascii]

lemma feed_columnType (v : VarT) :
    feed Sql.closer .start (columnType v) = ([], .word (columnType v)) := by
  cases v <;> rfl

/-- The tokens of a table name. -/
def refTokens (ref : TableRef) : List Token := schemaTokens ref ++ [.quoted 34 ref.name]

lemma tokens_schemaText {table : Bytes} (h : PlainName table) :
    tokens Sql.closer (schemaText table) =
      some [.word (ascii "SELECT"), .word (ascii "cid"), .sym 44, .word (ascii "name"), .sym 44,
        .word (ascii "type"), .word (ascii "FROM"), .word (ascii "pragma_table_xinfo"), .sym 40,
        .quoted 39 (splitTable table).2, .sym 44, .quoted 39 (splitTable table).1, .sym 41] := by
  obtain ⟨hs, hn⟩ := plain_splitTable h
  have h1 : feed Sql.closer .start (ascii "SELECT cid,name,type FROM pragma_table_xinfo('") =
      ([.word (ascii "SELECT"), .word (ascii "cid"), .sym 44, .word (ascii "name"), .sym 44,
        .word (ascii "type"), .word (ascii "FROM"), .word (ascii "pragma_table_xinfo"), .sym 40],
        .quote 39 39 []) := rfl
  have h3 : feed Sql.closer (.quote 39 39 (splitTable table).2) (ascii "', '") =
      ([.quoted 39 (splitTable table).2, .sym 44], .quote 39 39 []) := rfl
  have h5 : feed Sql.closer (.quote 39 39 (splitTable table).1) (ascii "')") =
      ([.quoted 39 (splitTable table).1, .sym 41], .start) := rfl
  have hfeed := feed_append_of (feed_append_of (feed_append_of (feed_append_of h1
    (feed_inside hn.2.1)) h3) (feed_inside hs.2.1)) h5
  have hnul : (0 : UInt8) ∉ schemaText table := by
    simp [schemaText, ascii, hs.2.2, hn.2.2]
  exact tokens_of_feed hnul hfeed rfl

lemma constraints_eq {m : Bytes} {xs : List Token} (h : Sql.constraints m = some xs) :
    ∃ ys mode last, feed Sql.closer .start m = (ys, mode) ∧ settle mode = some last ∧
      xs = ys ++ last ∧ Sql.constraintList 0 xs = true ∧ (0 : UInt8) ∉ m := by
  unfold Sql.constraints at h
  cases hf : feed Sql.closer .start m with
  | mk ys mode =>
    rw [hf] at h
    simp only [Option.bind_eq_some_iff] at h
    obtain ⟨last, hlast, h⟩ := h
    split_ifs at h with hx
    cases h
    exact ⟨ys, mode, last, rfl, hlast, rfl, hx.1, hx.2⟩

lemma tokens_createText {table name m : Bytes} {v : VarT} {xs : List Token} (ht : PlainName table)
    (hn : PlainName name) (hm : Sql.constraints m = some xs) :
    tokens Sql.closer (createText table name (columnType v) m) =
      some ([.word (ascii "create"), .word (ascii "table"), .word (ascii "if"), .word (ascii "not"),
        .word (ascii "exists")] ++ refTokens (tableRef table) ++
        [.sym 40, .quoted 39 name, .word (columnType v)] ++ xs ++ [.sym 41, .word (ascii "STRICT")]) := by
  obtain ⟨ys, mode, last, hfeed, hlast, rfl, -, h0⟩ := constraints_eq hm
  have h1 : feed Sql.closer .start (ascii "create table if not exists ") =
      ([.word (ascii "create"), .word (ascii "table"), .word (ascii "if"), .word (ascii "not"),
        .word (ascii "exists")], .start) := rfl
  have h3 : feed Sql.closer (.closing 34 34 (tableRef table).name) (ascii " ( '") =
      ([.quoted 34 (tableRef table).name, .sym 40], .quote 39 39 []) := rfl
  have h5 : feed Sql.closer (.quote 39 39 name) (ascii "' ") = ([.quoted 39 name], .start) := rfl
  have h7 : feed Sql.closer (.word (columnType v)) (ascii " ") =
      ([.word (columnType v)], .start) := rfl
  have h9 : feed Sql.closer mode (ascii ") STRICT") =
      (last ++ [.sym 41], .word (ascii "STRICT")) := by
    have hb : feed Sql.closer .start (ascii " STRICT") = ([], .word (ascii "STRICT")) := rfl
    have hboth := feed_append_of (feed_bracket hlast rfl) hb
    rw [List.append_nil] at hboth
    exact hboth
  have hall := feed_append_of (feed_append_of (feed_append_of (feed_append_of (feed_append_of
    (feed_append_of (feed_append_of (feed_append_of h1 (feed_quoteTableName ht)) h3)
      (feed_inside hn.2.1)) h5) (feed_columnType v)) h7) hfeed) h9
  have hnul : (0 : UInt8) ∉ createText table name (columnType v) m := by
    simp [createText, ascii, nul_quoteTableName ht, hn.2.2, nul_columnType v, h0]
  have hfinish : finish (.word (ascii "STRICT")) = some [.word (ascii "STRICT")] := rfl
  have htok := tokens_of_feed hnul hall hfinish
  simpa [refTokens] using htok

lemma tokens_alterText {table name m : Bytes} {v : VarT} {xs : List Token} (ht : PlainName table)
    (hn : PlainName name) (hm : Sql.constraints m = some xs) :
    tokens Sql.closer (alterText table name (columnType v) m) =
      some ([.word (ascii "ALTER"), .word (ascii "table")] ++ refTokens (tableRef table) ++
        [.word (ascii "add"), .word (ascii "column"), .quoted 34 name, .word (columnType v)] ++ xs) := by
  obtain ⟨ys, mode, last, hfeed, hlast, rfl, -, h0⟩ := constraints_eq hm
  have h1 : feed Sql.closer .start (ascii "ALTER table ") =
      ([.word (ascii "ALTER"), .word (ascii "table")], .start) := rfl
  have h3 : feed Sql.closer (.closing 34 34 (tableRef table).name) (ascii " add column \"") =
      ([.quoted 34 (tableRef table).name, .word (ascii "add"), .word (ascii "column")],
        .quote 34 34 []) := rfl
  have h5 : feed Sql.closer (.quote 34 34 name) (ascii "\" ") = ([.quoted 34 name], .start) := rfl
  have h7 : feed Sql.closer (.word (columnType v)) (ascii " ") =
      ([.word (columnType v)], .start) := rfl
  have hall := feed_append_of (feed_append_of (feed_append_of (feed_append_of (feed_append_of
    (feed_append_of (feed_append_of h1 (feed_quoteTableName ht)) h3) (feed_inside hn.1)) h5)
      (feed_columnType v)) h7) hfeed
  have hnul : (0 : UInt8) ∉ alterText table name (columnType v) m := by
    simp [alterText, ascii, nul_quoteTableName ht, hn.2.2, nul_columnType v, h0]
  have htok := tokens_of_feed hnul hall (finish_of_settle hlast)
  simpa [refTokens] using htok

/-- The tokens of a column list. -/
def nameTokens : Bool → List Bytes → List Token
  | _, [] => []
  | first, n :: ns => (if first then [] else [.sym 44]) ++ .quoted 39 n :: nameTokens false ns

/-- The tokens of a placeholder list. -/
def markTokens : Bool → List Bytes → List Token
  | _, [] => []
  | first, _ :: ns => (if first then [] else [.sym 44]) ++ .sym 63 :: markTokens false ns

lemma feed_columnList_more (prev : Bytes) (ns : List Bytes) (rest : Bytes)
    (hn : ∀ n ∈ ns, PlainName n) :
    feed Sql.closer (.closing 39 39 prev) (columnList false ns ++ 41 :: rest) =
      (.quoted 39 prev :: nameTokens false ns ++ (feed Sql.closer .start (41 :: rest)).1,
        (feed Sql.closer .start (41 :: rest)).2) := by
  induction ns generalizing prev with
  | nil => exact feed_closing 39 39 prev 41 rest (by decide)
  | cons n ns ih =>
    have h1 : feed Sql.closer (.closing 39 39 prev) (listSep false ++ ascii "'") =
        ([.quoted 39 prev, .sym 44], .quote 39 39 []) := rfl
    have h3 : feed Sql.closer (.quote 39 39 n) (ascii "'") = ([], .closing 39 39 n) := rfl
    have hin := feed_inside (hn n (by simp)).2.1
    have hrest := ih n fun n' hn' => hn n' (by simp [hn'])
    have hall := feed_append_of (feed_append_of (feed_append_of h1 hin) h3) hrest
    simp only [columnList, nameTokens, List.append_assoc] at hall ⊢
    rw [hall]
    rfl

lemma feed_columnList (ns : List Bytes) (rest : Bytes) (hn : ∀ n ∈ ns, PlainName n) :
    feed Sql.closer .start (columnList true ns ++ 41 :: rest) =
      (nameTokens true ns ++ (feed Sql.closer .start (41 :: rest)).1,
        (feed Sql.closer .start (41 :: rest)).2) := by
  cases ns with
  | nil => rfl
  | cons n ns =>
    have h1 : feed Sql.closer .start (listSep true ++ ascii "'") = ([], .quote 39 39 []) := rfl
    have h3 : feed Sql.closer (.quote 39 39 n) (ascii "'") = ([], .closing 39 39 n) := rfl
    have hin := feed_inside (hn n (by simp)).2.1
    have hrest := feed_columnList_more n ns rest fun n' hn' => hn n' (by simp [hn'])
    have hall := feed_append_of (feed_append_of (feed_append_of h1 hin) h3) hrest
    simp only [columnList, nameTokens, List.append_assoc] at hall ⊢
    rw [hall]
    rfl

lemma feed_markList (first : Bool) (ns : List Bytes) :
    feed Sql.closer .start (markList first ns) = (markTokens first ns, .start) := by
  induction ns generalizing first with
  | nil => rfl
  | cons n ns ih =>
    have h1 : feed Sql.closer .start (listSep first ++ ascii "?") =
        ((if first then [] else [.sym 44]) ++ [.sym 63], .start) := by
      cases first <;> rfl
    have hall := feed_append_of h1 (ih false)
    simp only [markList, markTokens, List.append_assoc] at hall ⊢
    exact hall

def replaceTokens (replace : Bool) : List Token :=
  if replace then [.word (ascii "or"), .word (ascii "replace")] else []

lemma nul_columnList {ns : List Bytes} (first : Bool) (hn : ∀ n ∈ ns, PlainName n) :
    (0 : UInt8) ∉ columnList first ns := by
  induction ns generalizing first with
  | nil => simp [columnList]
  | cons n ns ih =>
    have hfirst : (0 : UInt8) ∉ listSep first := by cases first <;> decide
    have hrest := ih false fun n' hn' => hn n' (by simp [hn'])
    have h0 := (hn n (by simp)).2.2
    simp [columnList, ascii, hfirst, hrest, h0]

lemma nul_markList (first : Bool) (ns : List Bytes) : (0 : UInt8) ∉ markList first ns := by
  induction ns generalizing first with
  | nil => simp [markList]
  | cons n ns ih =>
    have hfirst : (0 : UInt8) ∉ listSep first := by cases first <;> decide
    simp [markList, ascii, hfirst, ih false]

lemma tokens_insertText {table : Bytes} {ns : List Bytes} (replace : Bool) (ht : PlainName table)
    (hn : ∀ n ∈ ns, PlainName n) :
    tokens Sql.closer (insertText replace table ns) =
      some (.word (ascii "insert") :: replaceTokens replace ++ .word (ascii "into") ::
        refTokens (tableRef table) ++ .sym 40 :: nameTokens true ns ++
        [.sym 41, .word (ascii "values"), .sym 40] ++ markTokens true ns ++ [.sym 41]) := by
  have h1 : feed Sql.closer .start (ascii "insert " ++ (if replace then ascii "or replace " else []) ++
      ascii "into ") = (.word (ascii "insert") :: replaceTokens replace ++ [.word (ascii "into")],
        .start) := by
    cases replace <;> rfl
  have h3 : feed Sql.closer (.closing 34 34 (tableRef table).name) (ascii " (") =
      ([.quoted 34 (tableRef table).name, .sym 40], .start) := rfl
  have h5 : feed Sql.closer .start (ascii ") values (") =
      ([.sym 41, .word (ascii "values"), .sym 40], .start) := rfl
  have h7 : feed Sql.closer .start (ascii ")") = ([.sym 41], .start) := rfl
  have hmarks := feed_append_of (feed_append_of h5 (feed_markList true ns)) h7
  have hcols := feed_columnList ns (ascii " values (" ++ markList true ns ++ ascii ")") hn
  have hhead := feed_append_of (feed_append_of h1 (feed_quoteTableName ht)) h3
  have hsplit : insertText replace table ns =
      (ascii "insert " ++ (if replace then ascii "or replace " else []) ++ ascii "into " ++
        quoteTableName table ++ ascii " (") ++
      (columnList true ns ++ 41 :: (ascii " values (" ++ markList true ns ++ ascii ")")) := by
    have h41 : ascii ") values (" = 41 :: ascii " values (" := rfl
    simp only [insertText, insertHead, List.append_assoc, h41, List.cons_append]
  have hrest : feed Sql.closer .start (41 :: (ascii " values (" ++ markList true ns ++ ascii ")")) =
      ([.sym 41, .word (ascii "values"), .sym 40] ++ markTokens true ns ++ [.sym 41], .start) := hmarks
  rw [hrest] at hcols
  have hall := feed_append_of hhead hcols
  have hnul : (0 : UInt8) ∉ insertText replace table ns := by
    simp [insertText, insertHead, ascii, nul_quoteTableName ht, nul_columnList true hn,
      nul_markList true ns]
  rw [← hsplit] at hall
  have htok := tokens_of_feed hnul hall rfl
  simpa [refTokens] using htok

/-! The statements that these tokens are. -/

lemma readRef (ref : TableRef) (rest : List Token) (hr : Sql.symbol 46 rest = none) :
    Sql.tableRef (refTokens ref ++ rest) = some (ref, rest) := by
  obtain ⟨schema, name⟩ := ref
  cases schema with
  | none =>
    unfold Sql.tableRef refTokens schemaTokens
    simp [Sql.ident, hr]
  | some s => rfl

lemma readNames (ns : List Bytes) (rest : List Token) :
    Sql.names (nameTokens true ns ++ .sym 41 :: rest) = (ns, .sym 41 :: rest) := by
  have hmore : ∀ ns, Sql.moreNames (nameTokens false ns ++ .sym 41 :: rest) = (ns, .sym 41 :: rest) := by
    intro ns
    induction ns with
    | nil =>
      cases rest with
      | nil => rfl
      | cons t ts => cases t <;> rfl
    | cons n ns ih =>
      change (n :: (Sql.moreNames (nameTokens false ns ++ .sym 41 :: rest)).1,
        (Sql.moreNames (nameTokens false ns ++ .sym 41 :: rest)).2) = _
      rw [ih]
  cases ns with
  | nil => rfl
  | cons n ns =>
    change (n :: (Sql.moreNames (nameTokens false ns ++ .sym 41 :: rest)).1,
      (Sql.moreNames (nameTokens false ns ++ .sym 41 :: rest)).2) = _
    rw [hmore]

lemma readMarks (ns : List Bytes) :
    Sql.marks (markTokens true ns ++ [.sym 41]) = (ns.length, [.sym 41]) := by
  have hmore : ∀ ns, Sql.moreMarks (markTokens false ns ++ [.sym 41]) = (ns.length, [.sym 41]) := by
    intro ns
    induction ns with
    | nil => rfl
    | cons n ns ih =>
      change ((Sql.moreMarks (markTokens false ns ++ [.sym 41])).1 + 1,
        (Sql.moreMarks (markTokens false ns ++ [.sym 41])).2) = _
      rw [ih, List.length_cons]
  cases ns with
  | nil => rfl
  | cons n ns =>
    change ((Sql.moreMarks (markTokens false ns ++ [.sym 41])).1 + 1,
      (Sql.moreMarks (markTokens false ns ++ [.sym 41])).2) = _
    rw [hmore, List.length_cons]

lemma readBeforeStrict (ts : List Token) :
    Sql.beforeStrict (ts ++ [.sym 41, .word (ascii "STRICT")]) = some ts := by
  have hfold : fold (ascii "STRICT") = ascii "strict" := by decide
  simp [Sql.beforeStrict, hfold]

lemma count_nameTokens (first : Bool) (ns : List Bytes) :
    (nameTokens first ns).count (.sym 63) = 0 := by
  induction ns generalizing first with
  | nil => rfl
  | cons n ns ih => cases first <;> simp [nameTokens, ih]

lemma count_markTokens (first : Bool) (ns : List Bytes) :
    (markTokens first ns).count (.sym 63) = ns.length := by
  induction ns generalizing first with
  | nil => rfl
  | cons n ns ih => cases first <;> simp [markTokens, ih]

lemma count_refTokens (ref : TableRef) : (refTokens ref).count (.sym 63) = 0 := by
  obtain ⟨schema, name⟩ := ref
  cases schema <;> simp [refTokens, schemaTokens]

end Texts

open Texts

theorem read_schemaText {table : Bytes} (h : PlainName table) :
    Sql.read (schemaText table) =
      some (.tableXinfo (tableRef table).name ((tableRef table).schema.getD Db.mainSchema)) := by
  unfold Sql.read
  rw [tokens_schemaText h, splitTable_eq]
  rfl

theorem read_createText {table name m : Bytes} {v : VarT} {xs : List Token} (ht : PlainName table)
    (hn : PlainName name) (hm : Sql.constraints m = some xs) :
    Sql.read (createText table name (columnType v) m) =
      some (.createTable (tableRef table) ⟨name, columnType v, xs⟩) := by
  obtain ⟨-, -, -, -, -, -, hlist, -⟩ := constraints_eq hm
  have hkey : ∀ ts, Sql.keywords [ascii "create", ascii "table", ascii "if", ascii "not", ascii "exists"]
      (.word (ascii "create") :: .word (ascii "table") :: .word (ascii "if") :: .word (ascii "not") ::
        .word (ascii "exists") :: ts) = some ts := fun _ => rfl
  have href := readRef (tableRef table) (.sym 40 :: .quoted 39 name :: .word (columnType v) :: xs ++
    [.sym 41, .word (ascii "STRICT")]) rfl
  have hstrict := readBeforeStrict (.quoted 39 name :: .word (columnType v) :: xs)
  unfold Sql.read
  rw [tokens_createText ht hn hm]
  simp only [List.append_assoc, List.cons_append, List.nil_append] at hkey href hstrict ⊢
  have hcreate : Sql.createTable (.word (ascii "create") :: .word (ascii "table") ::
      .word (ascii "if") :: .word (ascii "not") :: .word (ascii "exists") ::
      (refTokens (tableRef table) ++ .sym 40 :: .quoted 39 name :: .word (columnType v) ::
        (xs ++ [.sym 41, .word (ascii "STRICT")]))) =
      some (.createTable (tableRef table) ⟨name, columnType v, xs⟩) := by
    unfold Sql.createTable
    rw [hkey]
    simp only [Option.bind_eq_bind, Option.bind_some, href, Sql.symbol, if_true, hstrict,
      Sql.columnDef, Sql.ident, Sql.word, hlist]
  simp only [Option.bind_some, Sql.statement, hcreate]
  rfl

theorem read_alterText {table name m : Bytes} {v : VarT} {xs : List Token} (ht : PlainName table)
    (hn : PlainName name) (hm : Sql.constraints m = some xs) :
    Sql.read (alterText table name (columnType v) m) =
      some (.addColumn (tableRef table) ⟨name, columnType v, xs⟩) := by
  obtain ⟨-, -, -, -, -, -, hlist, -⟩ := constraints_eq hm
  have hkey : ∀ ts, Sql.keywords [ascii "alter", ascii "table"]
      (.word (ascii "ALTER") :: .word (ascii "table") :: ts) = some ts := fun _ => rfl
  have hadd : ∀ ts, Sql.keywords [ascii "add", ascii "column"]
      (.word (ascii "add") :: .word (ascii "column") :: ts) = some ts := fun _ => rfl
  have hno : ∀ ts, Sql.createTable (.word (ascii "ALTER") :: ts) = none := fun _ => rfl
  have href := readRef (tableRef table) (.word (ascii "add") :: .word (ascii "column") ::
    .quoted 34 name :: .word (columnType v) :: xs) rfl
  unfold Sql.read
  rw [tokens_alterText ht hn hm]
  simp only [List.append_assoc, List.cons_append, List.nil_append] at hkey hadd href ⊢
  have halter : Sql.addColumn (.word (ascii "ALTER") :: .word (ascii "table") ::
      (refTokens (tableRef table) ++ .word (ascii "add") :: .word (ascii "column") ::
        .quoted 34 name :: .word (columnType v) :: xs)) =
      some (.addColumn (tableRef table) ⟨name, columnType v, xs⟩) := by
    unfold Sql.addColumn
    rw [hkey]
    simp only [Option.bind_eq_bind, Option.bind_some, href, hadd, if_true, Sql.columnDef, Sql.ident,
      Sql.word, hlist]
  simp only [Option.bind_some, Sql.statement, hno, halter]
  rfl

theorem read_insertText {table : Bytes} {ns : List Bytes} (replace : Bool) (ht : PlainName table)
    (hn : ∀ n ∈ ns, PlainName n) :
    Sql.read (insertText replace table ns) =
      some (.insert replace (tableRef table) ns ns.length) := by
  have hno : ∀ ts, Sql.createTable (.word (ascii "insert") :: ts) = none := fun _ => rfl
  have hno' : ∀ ts, Sql.addColumn (.word (ascii "insert") :: ts) = none := fun _ => rfl
  have hor : ∀ ts, Sql.orReplace (replaceTokens replace ++ .word (ascii "into") :: ts) =
      (replace, .word (ascii "into") :: ts) := by
    intro ts
    cases replace <;> rfl
  have hkey : ∀ ts, Sql.keyword (ascii "insert") (.word (ascii "insert") :: ts) = some ts :=
    fun _ => rfl
  have hinto : ∀ ts, Sql.keyword (ascii "into") (.word (ascii "into") :: ts) = some ts :=
    fun _ => rfl
  have hvalues : ∀ ts, Sql.keyword (ascii "values") (.word (ascii "values") :: ts) = some ts :=
    fun _ => rfl
  have href := readRef (tableRef table) (.sym 40 :: (nameTokens true ns ++ .sym 41 ::
    .word (ascii "values") :: .sym 40 :: (markTokens true ns ++ [.sym 41]))) rfl
  have hnames := readNames ns (.word (ascii "values") :: .sym 40 :: (markTokens true ns ++ [.sym 41]))
  unfold Sql.read
  rw [tokens_insertText replace ht hn]
  simp only [List.append_assoc, List.cons_append, List.nil_append] at href hnames ⊢
  have hinsert : Sql.insert (.word (ascii "insert") :: (replaceTokens replace ++
      .word (ascii "into") :: (refTokens (tableRef table) ++ .sym 40 :: (nameTokens true ns ++
        .sym 41 :: .word (ascii "values") :: .sym 40 :: (markTokens true ns ++ [.sym 41]))))) =
      some (.insert replace (tableRef table) ns ns.length) := by
    unfold Sql.insert
    rw [hkey]
    simp only [Option.bind_eq_bind, Option.bind_some, hor, hinto, href, Sql.symbol, if_true, hnames,
      hvalues, readMarks]
  simp only [Option.bind_some, Sql.statement, hno, hno', hinsert]
  rfl

/-- An `INSERT` has one placeholder for each of its columns. -/
theorem params_insertText {table : Bytes} {ns : List Bytes} (replace : Bool) (ht : PlainName table)
    (hn : ∀ n ∈ ns, PlainName n) : Sql.params (insertText replace table ns) = ns.length := by
  have hrep : (replaceTokens replace).count (.sym 63) = 0 := by cases replace <;> rfl
  unfold Sql.params
  rw [tokens_insertText replace ht hn]
  simp [List.count_append, count_nameTokens, count_markTokens, count_refTokens, hrep]

end SqliteWrite
