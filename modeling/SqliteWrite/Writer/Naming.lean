import SqliteWrite.Lib.Quoting
import SqliteWrite.Sqlite.Reference
import SqliteWrite.Writer.Texts
import SqliteWrite.Writer.Threads

/-! The texts of the writer for any names. They are the statements about what the caller named exactly
for names without quotes and NUL. -/
namespace SqliteWrite
open Texts Tokens

/-- Each text is one statement of its kind about the table and the columns that the caller named, and
the `INSERT` has one placeholder for each column. -/
structure NamesExactly (table : Bytes) (names : List Bytes) : Prop where
  schema : Sql.read (schemaText table) =
    some (.tableXinfo (tableRef table).name ((tableRef table).schema.getD Db.mainSchema))
  create : ∀ n ∈ names, ∀ v, Sql.read (createText table n (columnType v) []) =
    some (.createTable (tableRef table) ⟨n, columnType v, []⟩)
  alter : ∀ n ∈ names, ∀ v, Sql.read (alterText table n (columnType v) []) =
    some (.addColumn (tableRef table) ⟨n, columnType v, []⟩)
  insert : ∀ replace, Sql.read (insertText replace table names) =
    some (.insert replace (tableRef table) names names.length)
  marks : ∀ replace, Sql.params (insertText replace table names) = names.length

lemma namesExactly_of_plain {table : Bytes} {names : List Bytes} (ht : PlainName table)
    (hn : ∀ n ∈ names, PlainName n) : NamesExactly table names where
  schema := read_schemaText ht
  create n hmem _ := read_createText ht (hn n hmem) rfl
  alter n hmem _ := read_alterText ht (hn n hmem) rfl
  insert replace := read_insertText replace ht hn
  marks replace := params_insertText replace ht hn

lemma tableRef_parts (table : Bytes) :
    (tableRef table = ⟨none, table⟩ ∧ quoteTableName table = 34 :: (table ++ [34])) ∨
    ∃ s n, table = s ++ 46 :: n ∧ tableRef table = ⟨some s, n⟩ ∧
      quoteTableName table = 34 :: (s ++ 34 :: (46 :: 34 :: (n ++ [34]))) := by
  unfold tableRef quoteTableName
  cases hpos : table.findIdx? (· == 46) with
  | none => exact Or.inl ⟨rfl, rfl⟩
  | some pos =>
    obtain ⟨hlt, hdot, -⟩ := List.findIdx?_eq_some_iff_getElem.mp hpos
    refine Or.inr ⟨table.take pos, table.drop (pos + 1), ?_, rfl, ?_⟩
    · have heq : table[pos] = 46 := by simpa using hdot
      rw [← heq, List.getElem_cons_drop, List.take_append_drop]
    · simp [ascii]

lemma not_mem_table {table : Bytes} {c : UInt8} (hc : c ≠ 46) (hn : c ∉ (tableRef table).name)
    (hs : ∀ s, (tableRef table).schema = some s → c ∉ s) : c ∉ table := by
  rcases tableRef_parts table with ⟨href, -⟩ | ⟨s, n, htable, href, -⟩
  · rwa [href] at hn
  · rw [href] at hn hs
    rw [htable]
    simp [hs s rfl, hn, hc]

lemma tableRef_quoted {q : UInt8} {c : Bytes} {ts rest : List Token} {ref : TableRef}
    (h : Sql.tableRef (.quoted q c :: ts) = some (ref, rest)) :
    (ref = ⟨none, c⟩ ∧ rest = ts) ∨ ∃ ts' b, Sql.symbol 46 ts = some ts' ∧ Sql.ident ts' = some (b, rest) ∧
      ref = ⟨some c, b⟩ := by
  simp only [Sql.tableRef, Sql.ident, Option.bind_some] at h
  cases hdot : Sql.symbol 46 ts with
  | none =>
    simp only [hdot, Option.some.injEq, Prod.mk.injEq] at h
    exact Or.inl ⟨h.1.symm, h.2.symm⟩
  | some ts' =>
    simp only [hdot, Option.map_eq_some_iff, Prod.mk.injEq] at h
    obtain ⟨⟨b, rest'⟩, hident, href, hrest⟩ := h
    simp only at hrest href
    subst hrest
    exact Or.inr ⟨ts', b, rfl, hident, href.symm⟩

lemma scan_sym {s : Bytes} {ts : List Token} (h0 : 0 ∉ s) {xs : List Token} {m : Mode}
    (hf : feed Sql.closer .start s = (xs, m)) {t : Bytes}
    (h : scan Sql.closer .start (cstr (s ++ t)) = some ts) :
    ∃ ts', ts = xs ++ ts' ∧ scan Sql.closer m (cstr t) = some ts' := by
  rw [scan_cstr_append h0 hf] at h
  obtain ⟨ts', hts', rfl⟩ := Option.map_eq_some_iff.mp h
  exact ⟨ts', rfl, hts'⟩

lemma read_tokens {sql : Bytes} {st : Statement} (h : Sql.read sql = some st) :
    ∃ ts, scan Sql.closer .start (cstr sql) = some ts ∧ Sql.statement ts = some st :=
  Option.bind_eq_some_iff.mp h

section
variable {table name : Bytes}

lemma statement_schema (ts : List Token) : Sql.statement ([.word (ascii "SELECT"), .word (ascii "cid"), .sym 44,
    .word (ascii "name"), .sym 44, .word (ascii "type"), .word (ascii "FROM"),
    .word (ascii "pragma_table_xinfo"), .sym 40] ++ ts) =
    ((Sql.literal ts).bind fun a => (Sql.symbol 44 a.2).bind fun t => (Sql.literal t).bind fun b =>
      (Sql.symbol 41 b.2).bind fun t => if t = [] then some (.tableXinfo a.1 b.1) else none) := by
  have hsplit : ∀ x : Option Statement, (x <|> none) = x := fun x => by cases x <;> rfl
  exact hsplit _

lemma plain_of_schema (h : Sql.read (schemaText table) =
    some (.tableXinfo (tableRef table).name ((tableRef table).schema.getD Db.mainSchema))) :
    (0 ∉ (tableRef table).name ∧ 39 ∉ (tableRef table).name) ∧
      ∀ s, (tableRef table).schema = some s → 0 ∉ s ∧ 39 ∉ s := by
  obtain ⟨ts, hts, hst⟩ := read_tokens h
  unfold schemaText at hts
  rw [splitTable_eq, show ascii "', '" = 39 :: ascii ", '" from rfl, show ascii "')" = [39, 41] from rfl] at hts
  simp only [List.append_assoc, List.cons_append] at hts
  have hfeed : feed Sql.closer .start (ascii "SELECT cid,name,type FROM pragma_table_xinfo('") =
      ([.word (ascii "SELECT"), .word (ascii "cid"), .sym 44, .word (ascii "name"), .sym 44,
        .word (ascii "type"), .word (ascii "FROM"), .word (ascii "pragma_table_xinfo"), .sym 40],
        .quote 39 39 []) := rfl
  have hcomma : feed Sql.closer .start (ascii ", '") = ([.sym 44], .quote 39 39 []) := rfl
  obtain ⟨ts₁, rfl, hts₁⟩ := scan_sym (by decide) hfeed hts
  obtain ⟨c, ts₂, rfl, hname⟩ := scan_name (by decide) (by simp [ascii]) hts₁
  rw [statement_schema] at hst
  simp only [Sql.literal, if_true, Option.bind_some] at hst
  obtain ⟨ts₃, hcomma₃, hst⟩ := Option.bind_eq_some_iff.mp hst
  obtain ⟨⟨d, ts₄⟩, hd, hst⟩ := Option.bind_eq_some_iff.mp hst
  obtain ⟨ts₅, -, hst⟩ := Option.bind_eq_some_iff.mp hst
  split_ifs at hst
  simp only [Option.some.injEq, Statement.tableXinfo.injEq] at hst
  obtain ⟨hc, hd'⟩ := hst
  obtain ⟨h0, h39, hrest⟩ := hname hc
  refine ⟨⟨h0, h39⟩, fun s hs => ?_⟩
  obtain ⟨ts₆, rfl, hts₆⟩ := scan_sym (by decide) hcomma hrest
  obtain ⟨d', ts₇, rfl, hschema⟩ := scan_name (by decide) (by simp) hts₆
  simp only [List.cons_append, List.nil_append, Sql.symbol, if_true, Option.some.injEq] at hcomma₃
  subst hcomma₃
  simp only [if_true, Option.some.injEq, Prod.mk.injEq] at hd
  rw [hs, Option.getD_some, ← hd.1] at hd'
  rw [hs, Option.getD_some] at hschema
  obtain ⟨h0', h39', -⟩ := hschema hd'
  exact ⟨h0', h39'⟩

lemma statement_create (ts : List Token) : Sql.statement ([.word (ascii "create"), .word (ascii "table"),
    .word (ascii "if"), .word (ascii "not"), .word (ascii "exists")] ++ ts) =
    ((Sql.tableRef ts).bind fun a => (Sql.symbol 40 a.2).bind fun t => (Sql.beforeStrict t).bind fun t =>
      (Sql.columnDef t).bind fun col => some (.createTable a.1 col)) := by
  have hsplit : ∀ x : Option Statement, (x <|> none) = x := fun x => by cases x <;> rfl
  exact hsplit _

lemma beforeStrict_eq {ts xs : List Token} (h : Sql.beforeStrict ts = some xs) :
    ∃ c b, ts = xs ++ [.sym c, .word b] := by
  unfold Sql.beforeStrict at h
  split at h
  · rename_i b c rest hrev
    split_ifs at h
    cases h
    refine ⟨c, b, ?_⟩
    rw [← List.reverse_reverse ts, hrev]
    simp
  · cases h

lemma columnDef_name {ts : List Token} {col : Column} (h : Sql.columnDef ts = some col) :
    ∃ q rest, ts = .quoted q col.name :: rest := by
  unfold Sql.columnDef at h
  obtain ⟨⟨n, ts'⟩, hname, h⟩ := Option.bind_eq_some_iff.mp h
  obtain ⟨⟨type, ts''⟩, htype, h⟩ := Option.bind_eq_some_iff.mp h
  simp only at h
  split_ifs at h
  cases h
  unfold Sql.ident at hname
  split at hname
  · cases hname
    exact ⟨_, _, rfl⟩
  · cases hname

/-- What the parser of a table definition makes of the text behind the table name. -/
def definition (ref : TableRef) (ts : List Token) : Option Statement :=
  (Sql.symbol 40 ts).bind fun t => (Sql.beforeStrict t).bind fun t =>
    (Sql.columnDef t).bind fun col => some (.createTable ref col)

lemma plain_of_definition {type t : Bytes} {ref ref' : TableRef} {ts : List Token} (ht : t.head? ≠ some 39)
    (h : scan Sql.closer .start (cstr (ascii " ( '" ++ (name ++ 39 :: t))) = some ts)
    (hst : definition ref ts = some (.createTable ref' ⟨name, type, []⟩)) : 0 ∉ name ∧ 39 ∉ name := by
  have hopen : feed Sql.closer .start (ascii " ( '") = ([.sym 40], .quote 39 39 []) := rfl
  obtain ⟨ts₁, rfl, hts₁⟩ := scan_sym (by decide) hopen h
  obtain ⟨c, ts₂, rfl, hname⟩ := scan_name (by decide) ht hts₁
  simp only [definition, List.cons_append, List.nil_append, Sql.symbol, if_true, Option.bind_some] at hst
  obtain ⟨ts₃, hstrict, hst⟩ := Option.bind_eq_some_iff.mp hst
  obtain ⟨col, hcol, hst⟩ := Option.bind_eq_some_iff.mp hst
  simp only [Option.some.injEq, Statement.createTable.injEq] at hst
  obtain ⟨q, rest, hcols⟩ := columnDef_name hcol
  obtain ⟨c', b, heq⟩ := beforeStrict_eq hstrict
  rw [hcols, List.cons_append] at heq
  have hc : c = name := by
    rw [hst.2] at heq
    exact (Token.quoted.inj (List.cons.inj heq).1).2
  obtain ⟨h0, h39, -⟩ := hname hc
  exact ⟨h0, h39⟩

lemma definition_ref {ref ref' : TableRef} {ts : List Token} {col : Column}
    (h : definition ref ts = some (.createTable ref' col)) : ref = ref' := by
  obtain ⟨_, -, h⟩ := Option.bind_eq_some_iff.mp h
  obtain ⟨_, -, h⟩ := Option.bind_eq_some_iff.mp h
  obtain ⟨_, -, h⟩ := Option.bind_eq_some_iff.mp h
  simp only [Option.some.injEq, Statement.createTable.injEq] at h
  exact h.1

lemma plain_of_create {v : VarT} (h : Sql.read (createText table name (columnType v) []) =
    some (.createTable (tableRef table) ⟨name, columnType v, []⟩)) :
    34 ∉ table ∧ 0 ∉ name ∧ 39 ∉ name := by
  obtain ⟨ts, hts, hst⟩ := read_tokens h
  obtain ⟨rest, hhead, htext⟩ : ∃ rest : Bytes, rest.head? ≠ some 39 ∧
      createText table name (columnType v) [] = ascii "create table if not exists " ++
        (quoteTableName table ++ (ascii " ( '" ++ (name ++ 39 :: rest))) := by
    refine ⟨32 :: (columnType v ++ (ascii " " ++ ascii ") STRICT")), by simp, ?_⟩
    unfold createText
    rw [show ascii "' " = [39, 32] from rfl]
    simp
  have hfeed : feed Sql.closer .start (ascii "create table if not exists " ++ [34]) =
      ([.word (ascii "create"), .word (ascii "table"), .word (ascii "if"), .word (ascii "not"),
        .word (ascii "exists")], .quote 34 34 []) := rfl
  rw [htext] at hts
  rcases tableRef_parts table with ⟨href, hquote⟩ | ⟨s, n, htable, href, hquote⟩
  · have hcut : ascii "create table if not exists " ++ (34 :: (table ++ [34]) ++ (ascii " ( '" ++
        (name ++ 39 :: rest))) = (ascii "create table if not exists " ++ [34]) ++
          (table ++ 34 :: (ascii " ( '" ++ (name ++ 39 :: rest))) := by simp
    rw [hquote, hcut] at hts
    obtain ⟨ts₁, rfl, hts₁⟩ := scan_sym (by decide) hfeed hts
    obtain ⟨c, ts₂, rfl, hname⟩ := scan_name (by decide) (by simp [ascii]) hts₁
    rw [statement_create] at hst
    obtain ⟨⟨ref, ts₃⟩, hpref, hdef⟩ := Option.bind_eq_some_iff.mp hst
    have hsame := definition_ref hdef
    rw [href] at hsame
    rcases tableRef_quoted hpref with ⟨rfl, rfl⟩ | ⟨ts', b, -, -, rfl⟩
    · obtain ⟨-, h34, hrest⟩ := hname (TableRef.mk.inj hsame).2
      exact ⟨h34, plain_of_definition hhead hrest hdef⟩
    · cases (TableRef.mk.inj hsame).1
  · have hcut : ascii "create table if not exists " ++ (34 :: (s ++ 34 :: (46 :: 34 :: (n ++ [34]))) ++
        (ascii " ( '" ++ (name ++ 39 :: rest))) = (ascii "create table if not exists " ++ [34]) ++
          (s ++ 34 :: ([46, 34] ++ (n ++ 34 :: (ascii " ( '" ++ (name ++ 39 :: rest))))) := by simp
    have hdot : feed Sql.closer .start [46, 34] = ([.sym 46], .quote 34 34 []) := rfl
    rw [hquote, hcut] at hts
    obtain ⟨ts₁, rfl, hts₁⟩ := scan_sym (by decide) hfeed hts
    obtain ⟨c, ts₂, rfl, hschema⟩ := scan_name (by decide) (by simp) hts₁
    rw [statement_create] at hst
    obtain ⟨⟨ref, ts₃⟩, hpref, hdef⟩ := Option.bind_eq_some_iff.mp hst
    have hsame := definition_ref hdef
    rw [href] at hsame
    rcases tableRef_quoted hpref with ⟨rfl, rfl⟩ | ⟨ts', b, hsym, hident, rfl⟩
    · cases (TableRef.mk.inj hsame).1
    · obtain ⟨-, hs, hrest⟩ := hschema (Option.some.inj (TableRef.mk.inj hsame).1)
      obtain ⟨ts₄, rfl, hts₄⟩ := scan_sym (by decide) hdot hrest
      obtain ⟨d, ts₅, rfl, hname⟩ := scan_name (by decide) (by simp [ascii]) hts₄
      simp only [List.cons_append, List.nil_append, Sql.symbol, if_true, Option.some.injEq] at hsym
      subst hsym
      simp only [Sql.ident, Option.some.injEq, Prod.mk.injEq] at hident
      obtain ⟨rfl, rfl⟩ := hident
      obtain ⟨-, hn, hrest'⟩ := hname (TableRef.mk.inj hsame).2
      refine ⟨?_, plain_of_definition hhead hrest' hdef⟩
      rw [htable]
      simp [hs, hn]

lemma statement_alter (ref : TableRef) (ts : List Token) : Sql.statement ([.word (ascii "ALTER"),
    .word (ascii "table")] ++ (refTokens ref ++ ([.word (ascii "add"), .word (ascii "column")] ++ ts))) =
    (Sql.columnDef ts).bind fun col => some (.addColumn ref col) := by
  have href := readRef ref ([.word (ascii "add"), .word (ascii "column")] ++ ts) rfl
  have hadd : Sql.addColumn ([.word (ascii "ALTER"), .word (ascii "table")] ++ (refTokens ref ++
      ([.word (ascii "add"), .word (ascii "column")] ++ ts))) =
      (Sql.tableRef (refTokens ref ++ ([.word (ascii "add"), .word (ascii "column")] ++ ts))).bind fun a =>
        (Sql.keywords [ascii "add", ascii "column"] a.2).bind fun t =>
          (Sql.columnDef t).bind fun col => some (.addColumn a.1 col) := rfl
  have hsplit : ∀ x : Option Statement, (x <|> none) = x := fun x => by cases x <;> rfl
  rw [href] at hadd
  have hstatement : Sql.statement ([.word (ascii "ALTER"), .word (ascii "table")] ++ (refTokens ref ++
      ([.word (ascii "add"), .word (ascii "column")] ++ ts))) = (Sql.addColumn ([.word (ascii "ALTER"),
        .word (ascii "table")] ++ (refTokens ref ++ ([.word (ascii "add"), .word (ascii "column")] ++ ts))) <|> none) := rfl
  rw [hstatement, hsplit, hadd]
  rfl

lemma plain_of_alter {v : VarT} (ht : PlainName table)
    (h : Sql.read (alterText table name (columnType v) []) =
      some (.addColumn (tableRef table) ⟨name, columnType v, []⟩)) : 34 ∉ name := by
  obtain ⟨ts, hts, hst⟩ := read_tokens h
  have hstart : feed Sql.closer .start (ascii "ALTER table ") =
      ([.word (ascii "ALTER"), .word (ascii "table")], .start) := rfl
  have hclose : feed Sql.closer (.closing 34 34 (tableRef table).name) (ascii " add column \"") =
      ([.quoted 34 (tableRef table).name, .word (ascii "add"), .word (ascii "column")], .quote 34 34 []) := rfl
  have hfeed := feed_append_of (feed_append_of hstart (feed_quoteTableName ht)) hclose
  have hnul : (0 : UInt8) ∉ ascii "ALTER table " ++ quoteTableName table ++ ascii " add column \"" := by
    simp [ascii, nul_quoteTableName ht]
  have htext : alterText table name (columnType v) [] =
      (ascii "ALTER table " ++ quoteTableName table ++ ascii " add column \"") ++
        (name ++ 34 :: 32 :: (columnType v ++ ascii " ")) := by
    unfold alterText
    rw [show ascii "\" " = [34, 32] from rfl]
    simp
  rw [htext] at hts
  obtain ⟨ts₁, rfl, hts₁⟩ := scan_sym hnul hfeed hts
  obtain ⟨c, ts₂, rfl, hname⟩ := scan_name (by decide) (by simp) hts₁
  have hparse := statement_alter (tableRef table) (.quoted 34 c :: ts₂)
  simp only [refTokens, List.append_assoc, List.cons_append, List.nil_append] at hst hparse
  rw [hparse] at hst
  obtain ⟨col, hcol, hst⟩ := Option.bind_eq_some_iff.mp hst
  simp only [Option.some.injEq, Statement.addColumn.injEq, true_and] at hst
  obtain ⟨q, rest, hcols⟩ := columnDef_name hcol
  rw [hst] at hcols
  exact (hname (Token.quoted.inj (List.cons.inj hcols).1).2).2.1

end

/-- For a table name and a list of columns, the texts of the writer name exactly what the caller named
if and only if no name holds an apostrophe, a quotation mark or NUL. -/
theorem namesExactly_iff (table : Bytes) {names : List Bytes} (hne : names ≠ []) :
    NamesExactly table names ↔ PlainName table ∧ ∀ n ∈ names, PlainName n := by
  constructor
  · intro h
    obtain ⟨first, hfirst⟩ := List.exists_mem_of_ne_nil _ hne
    obtain ⟨⟨h0, h39⟩, hschema⟩ := plain_of_schema h.schema
    have hcreate := fun n hn => plain_of_create (h.create n hn .null)
    have htable : PlainName table := ⟨(hcreate first hfirst).1,
      not_mem_table (by decide) h39 fun s hs => (hschema s hs).2,
      not_mem_table (by decide) h0 fun s hs => (hschema s hs).1⟩
    exact ⟨htable, fun n hn => ⟨plain_of_alter htable (h.alter n hn .null), (hcreate n hn).2.2,
      (hcreate n hn).2.1⟩⟩
  · rintro ⟨ht, hn⟩
    exact namesExactly_of_plain ht hn

example : NamesExactly (ascii "main.t") [ascii "a b", ascii "select"] :=
  namesExactly_of_plain (by decide) (by decide)

end SqliteWrite
