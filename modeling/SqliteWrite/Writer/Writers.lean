import SqliteWrite.Lib.Interleaving
import SqliteWrite.Writer.SharedFile

/-! Writers without transactions on one file, their statements in any order: unless one of them gets
ahead of a column definition of another, none of them disturbs the others. -/
namespace SqliteWrite
open Method

/-- A column takes the values that create columns of its type. -/
def Decisions.TakesOwn (D : Decisions) : Prop := ∀ v, (D.convert (columnType v) (stored v)).isSome = true

lemma Reference.decisions_takesOwn : decisions.TakesOwn := by
  intro v
  cases v with
  | double bits =>
    cases hnan : Decisions.bind.isNan bits with
    | true => simp only [stored, hnan, if_true]; rfl
    | false => simp only [stored, hnan, Bool.false_eq_true, if_false]; rfl
  | _ => rfl

def IsStep : Request → Prop
  | .step _ _ _ => True
  | _ => False

/-- How a call ends once its statement is stepped. -/
def EndsBy : (q : Request) → Reply q → Except Bytes Unit × SQLiteWriter → Prop
  | .step _ _ rows, r, a => a.1.isOk = (MiniSQLite.stepRows rows r).isOk
  | _, _, _ => True

def Threw (a : Except Bytes Unit × SQLiteWriter) : Prop := a.1.isOk = false

namespace SQLiteWriter
variable {α : Type} {table : Bytes}

lemma closes_bind {m : M α} {f : α → M Unit} (hm : m.Asks fun q => ¬ IsStep q)
    (hf : ∀ a w, ((f a).script w).Closes IsStep EndsBy Threw) (w : SQLiteWriter) :
    ((m >>= f).script w).Closes IsStep EndsBy Threw := by
  rw [script_bind]
  refine Script.Closes.bind (hm w) fun r => ?_
  obtain ⟨x, v⟩ := r
  cases x with
  | ok a => exact hf a v
  | error e => rfl

lemma not_isStep {q : Request} (h : SchemaRequest table q) : ¬ IsStep q := by
  cases q with
  | step sql binds rows => exact absurd rfl (h.2.2 sql binds rows)
  | _ => exact id

lemma closes_execPrep (w : SQLiteWriter) :
    ((do let _ ← onDb (MiniSQLite.execPrep table false 0) : M Unit).script w).Closes IsStep EndsBy
      Threw := by
  have hmember : (onDb (MiniSQLite.execPrep table false 0)).script w =
      (MiniSQLite.execPrep table false 0).script w.dDb >>= fun r => pure (r.1, w.setDb r.2) := rfl
  rw [script_bind, hmember, MiniSQLite.script_execPrep]
  cases w.dDb.dStmts table with
  | none => exact ⟨fun h => h.elim, fun _ _ => rfl⟩
  | some stmt =>
    refine ⟨fun _ r => ?_, fun h => absurd trivial h⟩
    cases hr : MiniSQLite.stepRows false r with
    | ok rows => exact ⟨_, by simp only [Script.bind, hr]; rfl, by simp only [EndsBy, hr]; rfl⟩
    | error e => exact ⟨_, by simp only [Script.bind, hr]; rfl, by simp only [EndsBy, hr]; rfl⟩

lemma closes_addValueGeneric (values : Fields) (replace : Bool) (w : SQLiteWriter) :
    ((addValueGeneric table values replace).script w).Closes IsStep EndsBy Threw := by
  have hschema : ∀ {β : Type} {m : M β}, m.Asks (SchemaRequest table) → m.Asks fun q => ¬ IsStep q :=
    fun hm v => (hm v).mono fun _ => not_isStep
  have htail : ∀ v, ((do bindValues table 1 values
                         let _ ← onDb (MiniSQLite.execPrep table false 0) : M Unit).script v).Closes
      IsStep EndsBy Threw :=
    closes_bind (hschema (asks_bindValues table 1 values)) fun _ => closes_execPrep
  unfold addValueGeneric
  rw [script_get_bind]
  by_cases hf : w.dFlag = .readOnly
  · simp only [hf, if_true]
    rfl
  simp only [hf, if_false]
  cases w.cached table values replace with
  | true => exact htail w
  | false => exact closes_bind (hschema (asks_rebuild table values replace)) (fun _ => htail) w

end SQLiteWriter

/-- Writers on one file. -/
abbrev Writers (ι : Type) (D : Decisions) :=
  Pool ι Request Reply Call SQLiteWriter (Except Bytes Unit) (Conn D.engine)

namespace Writers
open SQLiteWriter
variable {ι : Type} {D : Decisions} {ks : List Call} {k : Call} {σ σ₀ σ' : RowStore}
  {history : List (ι × Call × Except Bytes Unit)} {programs : ι → List Call}

def prog (k : Call) (w : SQLiteWriter) : Script Request Reply (Except Bytes Unit × SQLiteWriter) :=
  k.method.script w

/-- Writers just opened without transactions, each with its metadata and the calls that it will make.
Outside of transactions all connections see the one database, so that one stands for all. -/
def opened (D : Decisions) (metas : ι → Bytes → Bytes → Bytes) (db : Db) (programs : ι → List Call) :
    Writers ι D :=
  ⟨fun i => ⟨programs i, (Sys.start D.engine .noTransactions (metas i) db).writer, none⟩,
    (Sys.start D.engine .noTransactions noMeta db).conn, []⟩

lemma opened_abreast {columnMeta : Bytes → Bytes → Bytes} {db : Db} (h : Stored ks σ db) :
    Abreast D columnMeta ks [] [] (Sys.start D.engine .noTransactions columnMeta db).writer
    (Sys.start D.engine .noTransactions noMeta db).conn.view := by
  have hcache := Sys.start_cacheOk (E := D.engine) .noTransactions columnMeta db
  rw [Sys.start_eq D.engine .noTransactions columnMeta db] at hcache ⊢
  rw [Sys.start_eq D.engine .noTransactions noMeta db]
  refine ⟨⟨by simp [blank], hcache, rfl, ⟨by simp [blank, SQLiteWriter.Lists], by simp [blank, SQLiteWriter.Lists], ?_⟩, by simp⟩, σ, h⟩
  intro t _ _
  exact h.onlyMain _ _ (by decide)

/-- The calls on a table that returned, in order. -/
def returned (history : List (ι × Call × Except Bytes Unit)) (table : Bytes) : List Call :=
  (history.filter fun p => p.2.1.table = table ∧ p.2.2.isOk = true).map (·.2.1)

lemma returned_append (i : ι) (r : Except Bytes Unit) (table : Bytes) :
    returned (history ++ [(i, k, r)]) table = returned history table ++
      if k.table = table ∧ r.isOk = true then [k] else [] := by
  unfold returned
  rw [List.filter_append, List.map_append, List.filter_singleton]
  congr 1
  by_cases hk : k.table = table ∧ r.isOk = true
  · simp [hk]
  · rw [if_neg hk, decide_eq_false hk]
    rfl

/-- The store after some calls: behind the rows that were there, the rows of the calls that
returned, under columns that were there or that a call has named. -/
structure Tally (D : Decisions) (programs : ι → List Call) (σ₀ : RowStore)
    (history : List (ι × Call × Except Bytes Unit)) (σ : RowStore) : Prop where
  rows : ∀ table, (σ table).rows = (σ₀ table).rows ++
    (returned history table).map fun k => (σ table).row D.convert k.values
  named : ∀ table, ∀ k ∈ returned history table, ∀ p ∈ k.values, p.1 ∈ (σ table).columns.map (·.1)
  given : ∀ table, ∀ c ∈ (σ table).columns, c ∈ (σ₀ table).columns ∨
    ∃ i, ∃ k ∈ programs i, k.table = table ∧ ∃ p ∈ k.values, c = (p.1, columnType p.2)

namespace Tally

lemma row_eq {s s' : Shelf} {values : Fields} (hn : ∀ p ∈ values, p.1 ∈ s.columns.map (·.1))
    (hc : ∀ c ∈ s.columns, c ∈ s'.columns) : s'.row D.convert values = s.row D.convert values := by
  refine Shelf.row_congr D.convert fun p hp => ?_
  obtain ⟨c, hmem, hname⟩ := List.mem_map.mp (hn p hp)
  rw [← hname, Shelf.type?_eq hmem, Shelf.type?_eq (hc c hmem)]

lemma name (h : Tally D programs σ₀ history σ) {i : ι} (hk : k ∈ programs i) {p : Bytes × VarT}
    (hp : p ∈ k.values) :
    Tally D programs σ₀ history (Function.update σ k.table ((σ k.table).name p)) := by
  have hcols : ∀ c ∈ (σ k.table).columns, c ∈ ((σ k.table).name p).columns := by
    intro c hc
    unfold Shelf.name
    split_ifs
    · exact hc
    · exact List.mem_append_left _ hc
  refine ⟨fun table => ?_, fun table k' hk' q hq => ?_, fun table c hc => ?_⟩
  all_goals by_cases ht : table = k.table
  · subst ht
    rw [Function.update_self, Shelf.name_rows, h.rows]
    congr 1
    apply List.map_congr_left
    intro k' hk'
    exact (row_eq (h.named _ k' hk') hcols).symm
  · rw [Function.update_of_ne ht]
    exact h.rows table
  · subst ht
    rw [Function.update_self]
    exact Shelf.mem_name.mpr (Or.inl (h.named _ k' hk' q hq))
  · rw [Function.update_of_ne ht]
    exact h.named table k' hk' q hq
  · subst ht
    rw [Function.update_self] at hc
    by_cases hn : p.1 ∈ (σ k.table).columns.map (·.1)
    · rw [Shelf.name_self hn] at hc
      exact h.given _ c hc
    · rw [Shelf.name_columns hn] at hc
      rcases List.mem_append.mp hc with hc | hc
      · exact h.given _ c hc
      · exact Or.inr ⟨i, k, hk, rfl, p, hp, List.mem_singleton.mp hc⟩
  · rw [Function.update_of_ne ht] at hc
    exact h.given table c hc

lemma defined (h : Tally D programs σ₀ history σ) {i : ι} (hk : k ∈ programs i)
    (he : σ' = σ ∨ ∃ p ∈ k.values, σ' = Function.update σ k.table ((σ k.table).name p)) :
    Tally D programs σ₀ history σ' := by
  obtain rfl | ⟨p, hp, rfl⟩ := he
  · exact h
  · exact h.name hk hp

lemma addRow (h : Tally D programs σ₀ history σ) (i : ι) {r : Except Bytes Unit} (hr : r.isOk = true)
    (hn : ∀ p ∈ k.values, p.1 ∈ (σ k.table).columns.map (·.1)) :
    Tally D programs σ₀ (history ++ [(i, k, r)])
      (Function.update σ k.table ((σ k.table).addRow D.convert k.values hn)) := by
  refine ⟨fun table => ?_, fun table k' hk' q hq => ?_, fun table c hc => ?_⟩
  all_goals by_cases ht : table = k.table
  · subst ht
    rw [Function.update_self, returned_append, if_pos ⟨rfl, hr⟩, List.map_append, ← List.append_assoc]
    change (σ k.table).rows ++ [_] = _
    rw [h.rows]
    rfl
  · rw [Function.update_of_ne ht, returned_append, if_neg fun hk => ht hk.1.symm, List.append_nil]
    exact h.rows table
  · subst ht
    rw [Function.update_self]
    rw [returned_append, if_pos ⟨rfl, hr⟩] at hk'
    rcases List.mem_append.mp hk' with hk' | hk'
    · exact h.named _ k' hk' q hq
    · obtain rfl := List.mem_singleton.mp hk'
      exact hn q hq
  · rw [Function.update_of_ne ht]
    rw [returned_append, if_neg fun hk => ht hk.1.symm, List.append_nil] at hk'
    exact h.named table k' hk' q hq
  · subst ht
    rw [Function.update_self] at hc
    exact h.given _ c hc
  · rw [Function.update_of_ne ht] at hc
    exact h.given table c hc

lemma threw (h : Tally D programs σ₀ history σ) (i : ι) (k : Call) {r : Except Bytes Unit}
    (hr : r.isOk = false) : Tally D programs σ₀ (history ++ [(i, k, r)]) σ := by
  have hsame : ∀ table, returned (history ++ [(i, k, r)]) table = returned history table := by
    intro table
    rw [returned_append, if_neg (by simp [hr]), List.append_nil]
  refine ⟨fun table => ?_, fun table => ?_, h.given⟩
  · rw [hsame]
    exact h.rows table
  · rw [hsame]
    exact h.named table

end Tally

section Run

/-- The state after a call: plain tables, and a reason for it if it threw. -/
structure Ended (D : Decisions) (ks : List Call) (k : Call) (r : Except Bytes Unit) (db : Db) : Prop where
  mem : k ∈ ks
  holds : Holds ks db
  reason : r.isOk = false → Rejected D db k

/-- Every call of a writer obeys its surroundings, and what it guarantees is what the others rely
on. -/
lemma sound (metas : ι → Bytes → Bytes → Bytes) (programs : ι → List Call) (hdoc : D.Documented)
    (hp : Proper D ks) : Pool.Sound (Conn.answer D.engine) prog
    (fun i k => k ∈ programs i ∧ k ∈ ks ∧ Bare (metas i) k) (Aside D ks) (fun q s => ¬ Collides q s) (Keeps D ks)
    (fun i w s => Abreast D (metas i) ks [] [] w s.view)
    (fun i k r s => k ∈ programs i ∧ Ended D ks k r s.view) where
  refl s h := ⟨h, fun _ _ _ hcol => hcol⟩
  trans hst htu h := by
    obtain ⟨ht, hgrown⟩ := hst h
    obtain ⟨hu, hgrown'⟩ := htu ht
    exact ⟨hu, fun k hk col hcol => hgrown' k hk col (hgrown k hk col hcol)⟩
  stable hst h := h.aside hst
  stableRes hst h := by
    obtain ⟨ht, hgrown⟩ := hst h.2.holds
    exact ⟨h.1, h.2.mem, ht, fun hr => hgrown.rejected h.2.mem (h.2.reason hr)⟩
  obeys := by
    intro i k w s hk hw
    obtain ⟨hmem, hks, hbare⟩ := hk
    refine ((callConditions_shared hdoc hp hks hbare).spec w s hw.undone).weaken fun a t hends => ?_
    obtain ⟨x, v⟩ := a
    cases x with
    | ok u => exact ⟨hends.undone, hmem, hks, hends.holds, by simp [Except.isOk, Except.toBool]⟩
    | error x => exact ⟨hends.abreast.undone, hmem, hks, hends.abreast.holds, fun _ => hends.rejected⟩
  keeps := by
    intro k q s hkeeps hs
    obtain ⟨σ, hσ⟩ := hs
    obtain ⟨σ', hσ', heffect⟩ := hkeeps σ hσ
    exact ⟨⟨σ', hσ'⟩, grown_of_columns hσ hσ' (columns_grow q _ heffect)⟩

/-- What the file holds is what the calls that returned have left there. -/
structure Accounted (ks : List Call) (programs : ι → List Call) (σ₀ : RowStore) (s : Writers ι D) :
    Prop where
  tally : ∃ σ, Stored ks σ s.server.view ∧ Tally D programs σ₀ s.history σ
  closes : ∀ i k x, (s.clients i).running = some (k, x) → x.Closes IsStep EndsBy Threw

lemma Accounted.turn {s : Writers ι D} (h : s.Accounted ks programs σ₀) {i : ι} {rest : List Call}
    {x : Script Request Reply (Except Bytes Unit × SQLiteWriter)}
    (ht : (s.clients i).turn prog = some (k, x, rest)) : x.Closes IsStep EndsBy Threw := by
  unfold Client.turn at ht
  cases hrun : (s.clients i).running with
  | some p =>
    rw [hrun] at ht
    cases ht
    exact h.closes i _ _ hrun
  | none =>
    rw [hrun] at ht
    cases htodo : (s.clients i).todo with
    | nil =>
      rw [htodo] at ht
      cases ht
    | cons k' rest' =>
      rw [htodo] at ht
      cases ht
      exact closes_addValueGeneric _ _ _

variable [DecidableEq ι]

/-- A writer goes on without a step of its statement: no row has come, and if its call has ended it
threw. -/
lemma Accounted.settle {s : Writers ι D} (h : s.Accounted ks programs σ₀) {i : ι} {rest : List Call}
    {x : Script Request Reply (Except Bytes Unit × SQLiteWriter)} {c : Conn D.engine}
    (hx : x.Closes IsStep EndsBy Threw)
    (ht : ∃ σ, Stored ks σ c.view ∧ Tally D programs σ₀ s.history σ) :
    Accounted ks programs σ₀ (s.settle i k x rest c) := by
  obtain ⟨σ, hσ, htally⟩ := ht
  refine ⟨⟨σ, ?_, ?_⟩, fun i' k' y hrun => ?_⟩
  · rwa [Pool.settle_server]
  · cases x with
    | done a => exact htally.threw i k hx
    | ask q f => exact htally
  · by_cases hi : i' = i
    · subst hi
      cases x with
      | done a => simp [Pool.settle] at hrun
      | ask q f =>
        simp only [Pool.settle, Function.update_self, Option.some.injEq, Prod.mk.injEq] at hrun
        obtain ⟨rfl, rfl⟩ := hrun
        exact hx
    · rw [Pool.settle_clients_of_ne hi] at hrun
      exact h.closes i' k' y hrun

/-- A call steps its statement and ends; its row has come exactly if it returned. -/
lemma Accounted.finish {s : Writers ι D} (h : s.Accounted ks programs σ₀) {i : ι} {rest : List Call}
    {a : Except Bytes Unit × SQLiteWriter} {c : Conn D.engine}
    (ht : ∃ σ, Stored ks σ c.view ∧ Tally D programs σ₀ (s.history ++ [(i, k, a.1)]) σ) :
    Accounted ks programs σ₀ (s.settle i k (.done a) rest c) := by
  refine ⟨ht, fun i' k' y hrun => ?_⟩
  by_cases hi : i' = i
  · subst hi
    simp [Pool.settle] at hrun
  · rw [Pool.settle_clients_of_ne hi] at hrun
    exact h.closes i' k' y hrun

lemma Accounted.step {s : Writers ι D} {i : ι} (h : s.Accounted ks programs σ₀)
    (hjob : ∀ k x rest, (s.clients i).turn prog = some (k, x, rest) → k ∈ programs i)
    (hg : ∀ p ∈ s.request prog i, Keeps D ks p.1 p.2 s.server) :
    Accounted ks programs σ₀ (s.step (Conn.answer D.engine) prog i) := by
  obtain ⟨σ, hσ, htally⟩ := h.tally
  rcases Pool.step_cases (Conn.answer D.engine) prog s i with ⟨hstep, -⟩ |
    ⟨k, a, rest, hturn, -, hstep⟩ | ⟨k, q, f, rest, hturn, hreq, hstep⟩
  · rwa [hstep]
  · rw [hstep]
    exact h.settle (h.turn hturn) ⟨σ, hσ, htally⟩
  · rw [hreq] at hg
    obtain ⟨σ', hσ', heffect⟩ := hg _ rfl σ hσ
    have hcloses := h.turn hturn
    have hk := hjob _ _ _ hturn
    rw [hstep]
    cases q with
    | step sql binds rows =>
      obtain ⟨a, ha, hends⟩ := hcloses.1 trivial (Conn.answer D.engine (.step sql binds rows) s.server).1
      rw [ha]
      refine h.finish ⟨σ', hσ', ?_⟩
      simp only [Effect] at heffect
      simp only [EndsBy] at hends
      rw [← hends] at heffect
      cases hok : a.1.isOk with
      | true =>
        rw [if_pos hok] at heffect
        obtain ⟨hn, rfl⟩ := heffect
        exact htally.addRow i hok hn
      | false =>
        rw [hok, if_neg (by simp)] at heffect
        exact heffect ▸ htally.threw i k hok
    | exec sql => exact h.settle (hcloses.2 id _) ⟨σ', hσ', htally.defined hk heffect⟩
    | prepare sql => exact h.settle (hcloses.2 id _) ⟨σ', hσ', htally.defined hk heffect⟩
    | bind arg => exact h.settle (hcloses.2 id _) ⟨σ', hσ', htally.defined hk heffect⟩
    | clearNull => exact h.settle (hcloses.2 id _) ⟨σ', hσ', htally.defined hk heffect⟩
    | clock => exact h.settle (hcloses.2 id _) ⟨σ', hσ', htally.defined hk heffect⟩
    | progressHandler ttd => exact h.settle (hcloses.2 id _) ⟨σ', hσ', htally.defined hk heffect⟩

/-- Two different writers agree on the type of every field that they share. -/
def Agree (programs : ι → List Call) : Prop :=
  ∀ i j, i ≠ j → ∀ k ∈ programs i, ∀ k' ∈ programs j, k.table = k'.table →
    ∀ p ∈ k.values, ∀ p' ∈ k'.values, p.1 = p'.1 → columnType p.2 = columnType p'.2

/-- Why the call of a writer throws that would also throw without the others: it has no fields, or
one of its values has no conversion to the type of its column, which was there at the start or comes
from a call of the same writer. -/
def OwnReason (D : Decisions) (σ₀ : RowStore) (program : List Call) (k : Call) : Prop :=
  k.values = [] ∨ ∃ p ∈ k.values, ∃ type, D.convert type (stored p.2) = none ∧
    ((p.1, type) ∈ (σ₀ k.table).columns ∨
      ∃ k' ∈ program, k'.table = k.table ∧ ∃ p' ∈ k'.values, p'.1 = p.1 ∧ columnType p'.2 = type)

omit [DecidableEq ι] in
lemma ownReason (hown : D.TakesOwn) (hagree : Agree programs) {db : Db} (hσ : Stored ks σ db)
    (htally : Tally D programs σ₀ history σ) {i : ι} (hk : k ∈ programs i) (hks : k ∈ ks)
    (hr : Rejected D db k) : OwnReason D σ₀ (programs i) k := by
  obtain hnil | ⟨p, hp, col, hcol, hname, hnone⟩ := hr
  · exact Or.inl hnil
  rw [(hσ.shelved k hks).columns] at hcol
  obtain ⟨c, hc, rfl⟩ := List.mem_map.mp hcol
  refine Or.inr ⟨p, hp, c.2, hnone, ?_⟩
  obtain hgiven | ⟨j, k', hk', ht, p', hp', heq⟩ := htally.given _ c hc
  · exact Or.inl (hname ▸ hgiven)
  have hfield : p'.1 = p.1 := (congrArg Prod.fst heq).symm.trans hname
  have htype : columnType p'.2 = c.2 := (congrArg Prod.snd heq).symm
  by_cases hij : i = j
  · exact Or.inr ⟨k', hij ▸ hk', ht, p', hp', hfield, htype⟩
  · have hsame := hagree i j hij k hk k' hk' ht.symm p hp p' hp' hfield.symm
    have htakes := hown p.2
    rw [hsame, htype, hnone] at htakes
    cases htakes

/-- Writers without transactions on one file of plain tables, each statement of theirs atomic, and no
metadata for the fields of their calls. In a run in which no column definition meets a table or a column
that has come since it was looked for, a call throws only for a reason of its own, and the tables hold
the rows that were there, followed by one row for each call that returned. -/
theorem undisturbed (hdoc : D.Documented) (hown : D.TakesOwn) (hp : Proper D ks)
    (metas : ι → Bytes → Bytes → Bytes) (programs : ι → List Call)
    (hprograms : ∀ i, ∀ k ∈ programs i, k ∈ ks ∧ Bare (metas i) k) (hagree : Agree programs) {db : Db}
    (hdb : Stored ks σ₀ db) (schedule : List ι)
    (hfree : (opened D metas db programs).Assumes (Conn.answer D.engine) prog (fun q c => ¬ Collides q c)
      schedule) :
    (∀ e ∈ ((opened D metas db programs).run (Conn.answer D.engine) prog schedule).history,
      e.2.2.isOk = false → OwnReason D σ₀ (programs e.1) e.2.1) ∧
    ∃ σ, Stored ks σ ((opened D metas db programs).run (Conn.answer D.engine) prog schedule).server.view ∧
      ∀ table, (σ table).rows = (σ₀ table).rows ++
        (returned ((opened D metas db programs).run (Conn.answer D.engine) prog schedule).history table).map
          fun k => (σ table).row D.convert k.values := by
  have hr := sound metas programs hdoc hp
  have hfine : (opened D metas db programs).Fine (Conn.answer D.engine)
      (fun i k => k ∈ programs i ∧ k ∈ ks ∧ Bare (metas i) k) (Aside D ks) (fun q s => ¬ Collides q s) (Keeps D ks)
      (fun i w s => Abreast D (metas i) ks [] [] w s.view)
      (fun i k r s => k ∈ programs i ∧ Ended D ks k r s.view) :=
    ⟨fun i k hk => ⟨hk, hprograms i k hk⟩, fun _ _ => opened_abreast hdb, by simp [opened],
      by simp [opened]⟩
  have hstart : Accounted ks programs σ₀ (opened D metas db programs) := by
    refine ⟨⟨σ₀, ?_, fun table => ?_, ?_, fun table c hc => Or.inl hc⟩, by simp [opened]⟩
    · unfold opened
      rw [Sys.start_eq D.engine .noTransactions noMeta db]
      exact hdb
    · simp [opened, returned]
    · simp [opened, returned]
  obtain ⟨hend, haccounted⟩ := hfine.run hr (Accounted ks programs σ₀)
    (fun s i hs h hg => h.step (fun k x rest hturn => (hs.turn hr hturn).1.1) hg) schedule hstart hfree
  obtain ⟨σ, hσ, htally⟩ := haccounted.tally
  refine ⟨fun e he hthrew => ?_, σ, hσ, htally.rows⟩
  obtain ⟨hk, hended⟩ := hend.results e he
  exact ownReason hown hagree hσ htally hk hended.mem (hended.reason hthrew)

/-- Two writers that use one table and three columns. -/
def twoPrograms : Bool → List Call
  | true => [⟨ascii "t", [(ascii "a", .int32 1)], false⟩, ⟨ascii "t", [(ascii "b", .string (ascii "x"))], false⟩]
  | false => [⟨ascii "t", [(ascii "a", .int64 2), (ascii "c", .null)], true⟩]

/-- The second of them would make another column unique. -/
def twoMetas : Bool → Bytes → Bytes → Bytes
  | true => noMeta
  | false => fun _ name => if name = ascii "d" then ascii "UNIQUE" else []

/-- The second writer creates the table after the first one has looked for it in vain. -/
def twoSchedule : List Bool := [true, true, false, false, false] ++ List.replicate 9 true ++ List.replicate 6 false

theorem undisturbed_twoPrograms :
    ∃ σ : RowStore, ∀ table, (σ table).rows = (RowStore.empty table).rows ++
      (returned ((opened Reference.decisions twoMetas Db.empty twoPrograms).run (Conn.answer _) prog
        twoSchedule).history table).map fun k => (σ table).row Reference.decisions.convert k.values := by
  have hproper : Proper Reference.decisions (twoPrograms true ++ twoPrograms false) := by
    refine ⟨?_, ?_, ?_, ?_, ?_, ?_, Reference.decisions_takes _⟩ <;> decide +kernel
  have hagree : Agree twoPrograms := by
    intro i j _
    cases i <;> cases j <;> decide +kernel
  have hdb : Stored (twoPrograms true ++ twoPrograms false) RowStore.empty Db.empty := by
    refine ⟨Db.plain_empty, fun _ _ _ => rfl, fun _ _ => ⟨rfl, rfl⟩, ?_⟩
    intro k _ n hn
    cases hn
  obtain ⟨-, σ, -, hrows⟩ := undisturbed Reference.decisions_documented Reference.decisions_takesOwn hproper
    twoMetas twoPrograms (by decide +kernel) hagree hdb twoSchedule (by decide +kernel)
  exact ⟨σ, hrows⟩

/-- A writer whose cache was loaded before the other one created a column can never write it. -/
theorem column_lost_to_other_writer :
    let program : Bool → List Call
      | true => ⟨ascii "t", [(ascii "a", .int32 1)], false⟩ ::
          List.replicate 2 ⟨ascii "t", [(ascii "b", .int32 1)], false⟩
      | false => [⟨ascii "t", [(ascii "a", .int32 1), (ascii "b", .int32 1)], false⟩]
    ((opened Reference.decisions (fun _ => noMeta) Db.empty program).run (Conn.answer _) prog
      (List.replicate 6 true ++ List.replicate 7 false ++ List.replicate 4 true)).history.map
        (fun e => (e.1, e.2.2.isOk)) = [(true, true), (false, true), (true, false), (true, false)] := by
  decide +kernel

end Run

end Writers
end SqliteWrite
