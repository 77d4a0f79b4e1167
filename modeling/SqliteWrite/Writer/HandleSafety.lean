import SqliteWrite.Writer.Handles
import SqliteWrite.Writer.Frames

/-! A writer with handles does what one does that has the statements themselves. The handles that it keeps
are those of the statements that live, so that none is used after it is finalized and none is lost. -/
namespace SqliteWrite.Handles
open Method Writer

variable {E : Engine} {P : Allocator} {w : Writer} {l : Library E}

/-- The statements of the tables. -/
def lookup (blocks : List (Bytes × Block Stmt)) (table : Bytes) : Option Stmt :=
  (blocks.find? fun e => e.1 = table).map (·.2.value)

lemma lookup_cons (table : Bytes) (b : Block Stmt) (rest : List (Bytes × Block Stmt)) :
    lookup ((table, b) :: rest) = Function.update (lookup rest) table (some b.value) := by
  funext other
  by_cases h : table = other
  · subst h
    simp [lookup]
  · simp [lookup, h, Function.update_of_ne (Ne.symm h)]

lemma lookup_change (table : Bytes) (b : Block Stmt) (rest : List (Bytes × Block Stmt)) (stmt : Stmt) :
    lookup ((table, { b with value := stmt }) :: rest) =
      Function.update (lookup ((table, b) :: rest)) table (some stmt) := by
  rw [lookup_cons, lookup_cons, Function.update_idem]

lemma lookup_absent {blocks : List (Bytes × Block Stmt)} {table : Bytes} (h : table ∉ blocks.map (·.1)) :
    lookup blocks table = none := by
  have hnone : blocks.find? (fun e => e.1 = table) = none := by
    apply List.find?_eq_none.mpr
    intro e he heq
    exact h (of_decide_eq_true heq ▸ List.mem_map_of_mem he)
  unfold lookup
  rw [hnone]
  rfl

/-- The handles of the writer are those of the statements that live, one for each table. -/
structure Owns (w : Writer) (l : Library E) (blocks : List (Bytes × Block Stmt)) : Prop where
  handles : w.handles.Perm (blocks.map fun e => (e.1, e.2.address))
  keys : (blocks.map (·.1)).Nodup
  stmts : l.stmts.Owns (blocks.map (·.2))

def Owned (w : Writer) (l : Library E) : Prop := ∃ blocks, Owns w l blocks

/-- The writer with its statements in the place of their handles. -/
def view (w : Writer) (l : Library E) : SQLiteWriter :=
  w.fields.setDb { w.fields.dDb with
    dStmts := fun table => (w.stmt table).bind fun a => (l.stmts.at? a).map (·.value) }

namespace Owns
variable {blocks rest : List (Bytes × Block Stmt)} {table : Bytes} {b : Block Stmt}

lemma perm (ho : Owns w l blocks) {blocks' : List (Bytes × Block Stmt)} (hp : blocks.Perm blocks') :
    Owns w l blocks' :=
  ⟨ho.handles.trans (hp.map _), (hp.map _).nodup_iff.mp ho.keys, ho.stmts.perm (hp.map _)⟩

lemma handles_nodup (ho : Owns w l blocks) : (w.handles.map (·.1)).Nodup := by
  have hperm := ho.handles.map (·.1)
  rw [List.map_map] at hperm
  exact hperm.nodup_iff.mpr ho.keys

lemma stmt_absent (ho : Owns w l blocks) (h : table ∉ blocks.map (·.1)) : w.stmt table = none := by
  have hnone : w.handles.find? (fun e => e.1 = table) = none := by
    apply List.find?_eq_none.mpr
    intro e he heq
    obtain ⟨d, hd, rfl⟩ := List.mem_map.mp (ho.handles.mem_iff.mp he)
    exact h (of_decide_eq_true heq ▸ List.mem_map_of_mem hd)
  unfold Writer.stmt
  rw [hnone]
  rfl

lemma stmt_head (ho : Owns w l ((table, b) :: rest)) : w.stmt table = some b.address := by
  have hmem : (table, b.address) ∈ w.handles := ho.handles.mem_iff.mpr List.mem_cons_self
  unfold Writer.stmt
  rw [find_by (·.1) ho.handles_nodup hmem]
  rfl

lemma stmt_at (ho : Owns w l ((table, b) :: rest)) : l.stmts.at? b.address = some b :=
  ho.stmts.at List.mem_cons_self

lemma split (ho : Owns w l blocks) (table : Bytes) :
    table ∉ blocks.map (·.1) ∨ ∃ b rest, blocks.Perm ((table, b) :: rest) := by
  by_cases h : table ∈ blocks.map (·.1)
  · obtain ⟨⟨_, b⟩, he, rfl⟩ := List.mem_map.mp h
    obtain ⟨s, t, rfl⟩ := List.append_of_mem he
    exact Or.inr ⟨b, s ++ t, List.perm_middle⟩
  · exact Or.inl h

lemma lookup_perm {blocks' : List (Bytes × Block Stmt)} (hkeys : (blocks.map (·.1)).Nodup)
    (hp : blocks.Perm blocks') : lookup blocks = lookup blocks' := by
  funext table
  by_cases h : table ∈ blocks.map (·.1)
  · obtain ⟨e, he, rfl⟩ := List.mem_map.mp h
    unfold lookup
    rw [find_by (·.1) hkeys he, find_by (·.1) ((hp.map _).nodup_iff.mp hkeys) (hp.mem_iff.mp he)]
  · rw [lookup_absent h, lookup_absent fun h' => h ((hp.map _).mem_iff.mpr h')]

lemma view_eq (ho : Owns w l blocks) :
    view w l = w.fields.setDb { w.fields.dDb with dStmts := lookup blocks } := by
  have hstmts : (fun table => (w.stmt table).bind fun a => (l.stmts.at? a).map (·.value)) = lookup blocks := by
    funext table
    rcases ho.split table with h | ⟨b, rest, hp⟩
    · rw [ho.stmt_absent h, lookup_absent h]
      rfl
    · have hfront := ho.perm hp
      rw [hfront.stmt_head, Option.bind_some, hfront.stmt_at, lookup_perm ho.keys hp, lookup_cons,
        Function.update_self]
      rfl
  unfold view
  rw [hstmts]

lemma erase (ho : Owns w l ((table, b) :: rest)) :
    Owns (w.setStmt table none) { l with stmts := l.stmts.free b.address } rest := by
  obtain ⟨hhandles, hkeys, hstmts⟩ := ho
  rw [List.map_cons, List.nodup_cons] at hkeys
  refine ⟨?_, hkeys.2, hstmts.free.1⟩
  have hfilter := hhandles.filter fun e => decide (e.1 ≠ table)
  rw [List.map_cons, List.filter_cons_of_neg (by simp)] at hfilter
  have hall : (rest.map fun e => (e.1, e.2.address)).filter (fun e => decide (e.1 ≠ table)) =
      rest.map fun e => (e.1, e.2.address) := by
    apply List.filter_eq_self.mpr
    intro e he
    obtain ⟨d, hd, rfl⟩ := List.mem_map.mp he
    have hne : d.1 ≠ table := fun heq => hkeys.1 (heq ▸ List.mem_map_of_mem (f := (·.1)) hd)
    simpa using hne
  rw [hall] at hfilter
  exact hfilter

lemma without (ho : Owns w l blocks) (h : table ∉ blocks.map (·.1)) : Owns (w.setStmt table none) l blocks := by
  have hall : w.handles.filter (fun e => decide (e.1 ≠ table)) = w.handles := by
    apply List.filter_eq_self.mpr
    intro e he
    obtain ⟨d, hd, rfl⟩ := List.mem_map.mp (ho.handles.mem_iff.mp he)
    have hne : d.1 ≠ table := fun heq => h (heq ▸ List.mem_map_of_mem hd)
    simpa using hne
  refine ⟨?_, ho.keys, ho.stmts⟩
  change (w.handles.filter fun e => e.1 ≠ table).Perm _
  rw [hall]
  exact ho.handles

lemma insert (ho : Owns w l blocks) (h : table ∉ blocks.map (·.1)) (stmt : Stmt) :
    Owns (w.setStmt table (some (l.stmts.next P stmt).address)) { l with stmts := l.stmts.alloc P stmt }
      ((table, l.stmts.next P stmt) :: blocks) := by
  refine ⟨(ho.without h).handles.cons _, ?_, ho.stmts.alloc P stmt⟩
  rw [List.map_cons, List.nodup_cons]
  exact ⟨h, ho.keys⟩

lemma change (ho : Owns w l ((table, b) :: rest)) (stmt : Stmt) :
    Owns w { l with stmts := l.stmts.store b.address stmt } ((table, { b with value := stmt }) :: rest) :=
  ⟨ho.handles, ho.keys, ho.stmts.store stmt⟩

lemma dStmts_absent (ho : Owns w l blocks) (h : table ∉ blocks.map (·.1)) : (view w l).dDb.dStmts table = none := by
  rw [ho.view_eq]
  exact lookup_absent h

lemma dStmts_head (ho : Owns w l ((table, b) :: rest)) : (view w l).dDb.dStmts table = some b.value := by
  rw [ho.view_eq]
  change lookup ((table, b) :: rest) table = _
  rw [lookup_cons, Function.update_self]

lemma view_setStmt {v : Writer} {u : Library E} {blocks' : List (Bytes × Block Stmt)} (ho : Owns w l blocks)
    (ho' : Owns v u blocks') (hf : v.fields = w.fields) {stmt : Option Stmt}
    (h : lookup blocks' = Function.update (lookup blocks) table stmt) :
    view v u = (view w l).setDb ((view w l).dDb.setStmt table stmt) := by
  rw [ho.view_eq, ho'.view_eq, h, hf]
  rfl

end Owns

/-- The calls go in step, and the handles stay those of the statements that live. -/
abbrev Steps {α β : Type} (P : Allocator) (m' : M β) (m : SQLiteWriter.M α) (w : Writer)
    (l : Library E) (R : β → α → Writer → Library E → Prop) : Prop :=
  InStep (Library.answer P E) (Conn.answer E) view Library.toConn m' m w l R Owned

/-- The writer with other statements. -/
def withStmts (f : Bytes → Option Stmt) (w : SQLiteWriter) : SQLiteWriter := w.setDb { w.dDb with dStmts := f }

lemma keepsColumns_withStmts (f : Bytes → Option Stmt) :
    SQLiteWriter.KeepsColumns (withStmts f) fun db => { db with dStmts := f } :=
  ⟨fun _ => rfl, fun _ => rfl, fun _ => rfl, fun _ _ => rfl, fun _ _ _ => rfl⟩

/-- What does not look at the statements is done as it is. -/
lemma outside_steps {α : Type} {m : SQLiteWriter.M α} (hm : ∀ f, m.Frame (withStmts f))
    {blocks : List (Bytes × Block Stmt)} (ho : Owns w l blocks) :
    Steps P (outside m) m w l fun b a v u => b = a ∧ Owns v u blocks ∧ v.handles = w.handles := by
  have hstep : ∀ (q : Request) (t : Library E), True → t.stmts = l.stmts →
      (Library.answer P E (.outside q) t).1 = (Conn.answer E q t.toConn).1 ∧
      (Library.answer P E (.outside q) t).2.toConn = (Conn.answer E q t.toConn).2 ∧
      (Library.answer P E (.outside q) t).2.stmts = l.stmts := fun q t _ ht => ⟨rfl, rfl, ht⟩
  obtain ⟨u, hembed, hconn, hstmts⟩ := invoke_embed (e := Library.toConn) (f := HandleRequest.outside)
    (g := fun _ r => r) (I := fun u => u.stmts = l.stmts) hstep m.asks_trivial w.fields rfl
  have hinvoke : (outside m).invoke (Library.answer P E) w l =
      ((m.invoke (Conn.answer E) w.fields l.toConn).1,
        { w with fields := (m.invoke (Conn.answer E) w.fields l.toConn).2.1 }, u) := by
    unfold outside
    rw [invoke_onMember, hembed]
  have howns : Owns { w with fields := (m.invoke (Conn.answer E) w.fields l.toConn).2.1 } u blocks :=
    ⟨ho.handles, ho.keys, hstmts ▸ ho.stmts⟩
  have hvalue : m.invoke (Conn.answer E) (view w l) l.toConn = ((m.invoke (Conn.answer E) w.fields l.toConn).1,
      view { w with fields := (m.invoke (Conn.answer E) w.fields l.toConn).2.1 } u, u.toConn) := by
    rw [ho.view_eq, howns.view_eq, hconn]
    exact (hm (lookup blocks)).invoke (Conn.answer E) w.fields l.toConn
  cases hr : (m.invoke (Conn.answer E) w.fields l.toConn).1 with
  | ok a =>
    rw [hr] at hinvoke hvalue
    exact InStep.of_invoke hinvoke hvalue ⟨rfl, howns, rfl⟩
  | error x =>
    rw [hr] at hinvoke hvalue
    exact InStep.of_throw hinvoke hvalue ⟨blocks, howns⟩

lemma invoke_discard {blocks : List (Bytes × Block Stmt)} (ho : Owns w l blocks) (table : Bytes) :
    ∃ v u rest, (Writer.discard table).invoke (Library.answer P E) w l = (.ok (), v, u) ∧ Owns v u rest ∧
      table ∉ rest.map (·.1) ∧ v.fields = w.fields ∧ u.toConn = l.toConn ∧
      lookup rest = Function.update (lookup blocks) table none := by
  unfold Writer.discard
  rw [invoke_bind, invoke_get]
  rcases ho.split table with h | ⟨b, rest, hp⟩
  · refine ⟨w, l, blocks, ?_, ho, h, rfl, rfl, ?_⟩
    · simp only [ho.stmt_absent h]
      rfl
    · rw [← lookup_absent h, Function.update_eq_self]
  · have hfront := ho.perm hp
    have hkeys := hfront.keys
    rw [List.map_cons, List.nodup_cons] at hkeys
    refine ⟨w.setStmt table none, { l with stmts := l.stmts.free b.address }, rest, ?_, hfront.erase, hkeys.1, rfl,
      rfl, ?_⟩
    · simp only [hfront.stmt_head]
      rfl
    · rw [Owns.lookup_perm ho.keys hp, lookup_cons, Function.update_idem, ← lookup_absent hkeys.1,
        Function.update_eq_self]

lemma prepare_steps (table str : Bytes) (ho : Owned w l) :
    Steps P (prepare table str) (SQLiteWriter.onDb (MiniSQLite.prepare table str)) w l
      fun _ _ v u => Owned v u := by
  obtain ⟨blocks, ho⟩ := ho
  obtain ⟨v, u, rest, hdiscard, howns, hrest, hfields, hconn, hlookup⟩ := invoke_discard (P := P) ho table
  have hcompiled : ∀ r, u.prepare P str = r → (prepare table str).invoke (Library.answer P E) w l =
      ((r.1.mapError (ascii "Unable to prepare query " ++ str ++ ascii ": " ++ ·)).map fun _ => (),
        r.1.toOption.elim v (v.setStmt table), r.2) := by
    rintro _ rfl
    unfold prepare
    rw [invoke_bind, hdiscard]
    simp only
    rw [invoke_bind, invoke_sqlite3Prepare]
    cases (u.prepare P str).1 <;> rfl
  cases hp : l.toConn.prepare str with
  | error errmsg =>
    have hhandle : (prepare table str).invoke (Library.answer P E) w l =
        (.error (ascii "Unable to prepare query " ++ str ++ ascii ": " ++ errmsg), v, u) :=
      hcompiled (.error errmsg, u) (by simp [Library.prepare, hconn, hp])
    apply InStep.of_throw hhandle
    · rw [SQLiteWriter.invoke_onDb, MiniSQLite.invoke_prepare, hp, ho.view_setStmt howns hfields hlookup, hconn]
      rfl
    · exact ⟨rest, howns⟩
  | ok stmt =>
    cases stmt with
    | none =>
      have hhandle : (prepare table str).invoke (Library.answer P E) w l = (.ok (), v.setStmt table none, u) :=
        hcompiled (.ok none, u) (by simp [Library.prepare, hconn, hp])
      have hnull : Owns (v.setStmt table none) u rest := howns.without hrest
      apply InStep.of_invoke hhandle
      · rw [SQLiteWriter.invoke_onDb, MiniSQLite.invoke_prepare, hp, ho.view_setStmt hnull hfields hlookup, hconn]
        rfl
      · exact ⟨rest, hnull⟩
    | some params =>
      have hhandle : (prepare table str).invoke (Library.answer P E) w l =
          (.ok (), v.setStmt table (some (u.stmts.next P (Library.compiled str params)).address),
            { u with stmts := u.stmts.alloc P (Library.compiled str params) }) :=
        hcompiled (.ok _, _) (by simp [Library.prepare, hconn, hp])
      have hnew := howns.insert (P := P) hrest (Library.compiled str params)
      have hstmt : lookup ((table, u.stmts.next P (Library.compiled str params)) :: rest) =
          Function.update (lookup blocks) table (some (Library.compiled str params)) := by
        rw [lookup_cons, hlookup, Function.update_idem]
        rfl
      apply InStep.of_invoke hhandle
      · rw [SQLiteWriter.invoke_onDb, MiniSQLite.invoke_prepare, hp, ho.view_setStmt hnew hfields hstmt]
        change (_, _, l.toConn) = (_, _, u.toConn)
        rw [hconn]
        rfl
      · exact ⟨_, hnew⟩

lemma bindPrep_steps {table : Bytes} (idx : ℕ) (arg : BindArg) (ho : Owned w l) :
    Steps P (bindPrep table idx arg) (SQLiteWriter.onDb (MiniSQLite.bindPrep table idx arg)) w l
      fun _ _ v u => Owned v u ∧ v = w := by
  obtain ⟨blocks, ho⟩ := ho
  have hhandle : (bindPrep table idx arg).invoke (Library.answer P E) w l =
      ((l.bind idx arg (w.stmt table)).1.mapError MiniSQLite.bindFailed, w, (l.bind idx arg (w.stmt table)).2) := by
    unfold bindPrep
    rw [invoke_bind, invoke_get]
    simp only
    rw [invoke_bind, invoke_sqlite3Bind]
    simp only
    cases (l.bind idx arg (w.stmt table)).1 <;> rfl
  rcases ho.split table with h | ⟨b, rest, hp⟩
  · rw [ho.stmt_absent h] at hhandle
    apply InStep.of_throw hhandle
    · unfold MiniSQLite.bindPrep
      rw [SQLiteWriter.invoke_onDb, invoke_bind, invoke_get]
      simp only [ho.dStmts_absent h]
      rfl
    · exact ⟨blocks, ho⟩
  · have hfront := ho.perm hp
    have hload : l.stmts.load b.address = (some b.value, l.stmts) := hfront.stmts.load List.mem_cons_self
    rw [hfront.stmt_head] at hhandle
    cases hbusy : b.value.busy with
    | true =>
      have hbind : l.bind idx arg (some b.address) = (.error (errstr 21), l) := by simp [Library.bind, hload, hbusy]
      rw [hbind] at hhandle
      apply InStep.of_throw hhandle
      · unfold MiniSQLite.bindPrep
        rw [SQLiteWriter.invoke_onDb, invoke_bind, invoke_get]
        simp only [hfront.dStmts_head, hbusy, if_true]
        rfl
      · exact ⟨blocks, ho⟩
    | false =>
      have hvalue := MiniSQLite.invoke_bindPrep (view w l).dDb l.toConn table idx arg hfront.dStmts_head hbusy
      have hsame : (view w l).dDb.setStmt table (some b.value) = (view w l).dDb :=
        MiniSQLite.setStmt_self _ table _ hfront.dStmts_head
      by_cases hi : idx = 0 ∨ b.value.binds.length < idx
      · have hbind : l.bind idx arg (some b.address) = (.error (errstr 25), l) := by
          simp [Library.bind, hload, hbusy, hi]
        rw [hbind] at hhandle
        apply InStep.of_throw hhandle
        · rw [SQLiteWriter.invoke_onDb, hvalue]
          simp only [MiniSQLite.bindOne, hi, if_true, hsame]
          rfl
        · exact ⟨blocks, ho⟩
      cases hv : E.bind arg with
      | error errstr =>
        have hbind : l.bind idx arg (some b.address) = (.error errstr, l) := by
          simp [Library.bind, hload, hbusy, hi, hv]
        rw [hbind] at hhandle
        apply InStep.of_throw hhandle
        · rw [SQLiteWriter.invoke_onDb, hvalue]
          simp only [MiniSQLite.bindOne, hi, if_false, hv, hsame]
          rfl
        · exact ⟨blocks, ho⟩
      | ok value =>
        have hbind : l.bind idx arg (some b.address) = (.ok (), { l with
            stmts := l.stmts.store b.address { b.value with binds := b.value.binds.set (idx - 1) value } }) := by
          simp [Library.bind, hload, hbusy, hi, hv]
        rw [hbind] at hhandle
        have hchange := hfront.change { b.value with binds := b.value.binds.set (idx - 1) value }
        apply InStep.of_invoke hhandle
        · rw [SQLiteWriter.invoke_onDb, hvalue, hfront.view_setStmt hchange rfl (lookup_change table b rest _)]
          simp only [MiniSQLite.bindOne, hi, if_false, hv]
          rfl
        · exact ⟨⟨_, hchange⟩, rfl⟩

lemma update_head {rest : List (Bytes × Block Stmt)} {table : Bytes} {b : Block Stmt}
    (ho : Owns w l ((table, b) :: rest)) (f : Stmt → Stmt) :
    Owns w (l.update f b.address) ((table, { b with value := f b.value }) :: rest) ∧
      (l.update f b.address).toConn = l.toConn := by
  have hload : l.stmts.load b.address = (some b.value, l.stmts) := ho.stmts.load List.mem_cons_self
  have hupdate : l.update f b.address = { l with stmts := l.stmts.store b.address (f b.value) } := by
    simp [Library.update, hload]
  rw [hupdate]
  exact ⟨ho.change (f b.value), rfl⟩

lemma invoke_stepStmt {rest : List (Bytes × Block Stmt)} {table : Bytes} {b : Block Stmt}
    (ho : Owns w l ((table, b) :: rest)) (rows : Bool) :
    ∃ u, (stepStmt table rows).invoke (Library.answer P E) w l =
        (.ok (MiniSQLite.stepRows rows (l.toConn.step b.value.sql b.value.binds rows).1), w, u) ∧
      Owns w u ((table, { b with value := MiniSQLite.resetStmt b.value }) :: rest) ∧
      u.toConn = (l.toConn.step b.value.sql b.value.binds rows).2 := by
  have hload : l.stmts.load b.address = (some b.value, l.stmts) := ho.stmts.load List.mem_cons_self
  generalize hl : (Library.mk (l.toConn.step b.value.sql b.value.binds rows).2
    (l.stmts.store b.address { b.value with busy := true }) l.closed : Library E) = l₁
  have hstep : l.step rows (some b.address) = ((l.toConn.step b.value.sql b.value.binds rows).1, l₁) := by
    simp [Library.step, hload, hl]
  have ho₁ : Owns w l₁ ((table, { b with value := { b.value with busy := true } }) :: rest) :=
    hl ▸ ⟨ho.handles, ho.keys, ho.stmts.store _⟩
  obtain ⟨ho₂, hconn₂⟩ := update_head ho₁ MiniSQLite.sqlite3Reset
  obtain ⟨ho₃, hconn₃⟩ := update_head ho₂ MiniSQLite.sqlite3ClearBindings
  refine ⟨_, ?_, ho₃, ?_⟩
  · unfold stepStmt
    rw [invoke_bind, invoke_get]
    simp only [ho.stmt_head]
    rw [invoke_bind, invoke_sqlite3Step, hstep]
    simp only
    cases MiniSQLite.stepRows rows (l.toConn.step b.value.sql b.value.binds rows).1 <;> rfl
  · rw [hconn₃, hconn₂, ← hl]

lemma invoke_execPrep {rest : List (Bytes × Block Stmt)} {table : Bytes} {b : Block Stmt}
    (ho : Owns w l ((table, b) :: rest)) (rows : Bool) (msec : UInt32) :
    ∃ u, (execPrep table rows msec).invoke (Library.answer P E) w l =
        (MiniSQLite.stepRows rows ((MiniSQLite.limited l.toConn msec).step b.value.sql b.value.binds rows).1, w, u) ∧
      Owns w u ((table, { b with value := MiniSQLite.resetStmt b.value }) :: rest) ∧
      u.toConn = MiniSQLite.released ((MiniSQLite.limited l.toConn msec).step b.value.sql b.value.binds rows).2 msec := by
  generalize hl : ({ l with toConn := MiniSQLite.limited l.toConn msec } : Library E) = l₁
  have ho₁ : Owns w l₁ ((table, b) :: rest) := hl ▸ ⟨ho.handles, ho.keys, ho.stmts⟩
  obtain ⟨u, hstmt, hu, hconn⟩ := invoke_stepStmt (P := P) ho₁ rows
  have hlimited : l₁.toConn = MiniSQLite.limited l.toConn msec := hl ▸ rfl
  rw [hlimited] at hstmt hconn
  refine ⟨{ u with toConn := MiniSQLite.released u.toConn msec }, ?_, ⟨hu.handles, hu.keys, hu.stmts⟩, ?_⟩
  · unfold execPrep
    by_cases hm : msec = 0
    · have hsame : l₁ = l := by
        rw [← hl, hm]
        rfl
      rw [hsame] at hstmt
      simp only [hm, ne_eq, not_true_eq_false, if_false]
      rw [hm] at hstmt
      rw [invoke_bind, hstmt]
      simp only
      cases MiniSQLite.stepRows rows ((MiniSQLite.limited l.toConn 0).step b.value.sql b.value.binds rows).1 <;> rfl
    · have hset : l₁ = { l with toConn := { l.toConn with progress := some (deadline l.now msec) } } := by
        rw [← hl]
        simp [MiniSQLite.limited, hm]
      rw [hset] at hstmt
      simp only [hm, ne_eq, not_false_eq_true, if_true]
      rw [invoke_bind, invoke_clockGettime]
      simp only
      rw [invoke_bind, invoke_sqlite3ProgressHandler]
      simp only
      rw [invoke_bind, hstmt]
      simp only
      rw [invoke_bind, invoke_sqlite3ProgressHandler]
      simp only [MiniSQLite.released, hm, if_false]
      cases MiniSQLite.stepRows rows ((MiniSQLite.limited l.toConn msec).step b.value.sql b.value.binds rows).1 <;> rfl
  · change MiniSQLite.released u.toConn msec = _
    rw [hconn]

lemma invoke_execPrep_null {table : Bytes} (h : w.stmt table = none) (rows : Bool) (msec : UInt32) :
    (execPrep table rows msec).invoke (Library.answer P E) w l =
      (.error (MiniSQLite.stepFailed 21), w,
        { l with toConn := MiniSQLite.released { MiniSQLite.limited l.toConn msec with fault := true } msec }) := by
  have hstep : ∀ u : Library E, (stepStmt table rows).invoke (Library.answer P E) w u =
      (.ok (.error (MiniSQLite.stepFailed 21)), w, { u with toConn := { u.toConn with fault := true } }) := by
    intro u
    unfold stepStmt
    rw [invoke_bind, invoke_get]
    simp only [h]
    rw [invoke_bind, invoke_sqlite3Step]
    cases rows <;> rfl
  unfold execPrep
  by_cases hm : msec = 0
  · simp only [hm, ne_eq, not_true_eq_false, if_false]
    rw [invoke_bind, hstep]
    rfl
  · simp only [hm, ne_eq, not_false_eq_true, if_true]
    rw [invoke_bind, invoke_clockGettime]
    simp only
    rw [invoke_bind, invoke_sqlite3ProgressHandler]
    simp only
    rw [invoke_bind, hstep]
    simp only
    rw [invoke_bind, invoke_sqlite3ProgressHandler]
    simp [MiniSQLite.released, MiniSQLite.limited, hm]

lemma execPrep_steps {table : Bytes} (rows : Bool) (msec : UInt32) (ho : Owned w l) :
    Steps P (execPrep table rows msec) (SQLiteWriter.onDb (MiniSQLite.execPrep table rows msec)) w l
      fun b a v u => b = a ∧ Owned v u := by
  obtain ⟨blocks, ho⟩ := ho
  rcases ho.split table with habsent | ⟨b, rest, hp⟩
  · apply InStep.of_throw (invoke_execPrep_null (ho.stmt_absent habsent) rows msec)
    · rw [SQLiteWriter.invoke_onDb, MiniSQLite.invoke_execPrep_none (ho.dStmts_absent habsent)]
      rfl
    · exact ⟨blocks, ho.handles, ho.keys, ho.stmts⟩
  have hfront := ho.perm hp
  obtain ⟨u, hhandle, hu, hconn⟩ := invoke_execPrep (P := P) hfront rows msec
  have hvalue : (SQLiteWriter.onDb (MiniSQLite.execPrep table rows msec)).invoke (Conn.answer E) (view w l)
      l.toConn = (MiniSQLite.stepRows rows
        ((MiniSQLite.limited l.toConn msec).step b.value.sql b.value.binds rows).1, view w u, u.toConn) := by
    rw [SQLiteWriter.invoke_onDb, MiniSQLite.invoke_execPrep_held hfront.dStmts_head, hconn,
      hfront.view_setStmt hu rfl (lookup_change table b rest _)]
  cases hr : MiniSQLite.stepRows rows
      ((MiniSQLite.limited l.toConn msec).step b.value.sql b.value.binds rows).1 with
  | ok decoded =>
    rw [hr] at hhandle hvalue
    exact InStep.of_invoke hhandle hvalue ⟨rfl, _, hu⟩
  | error x =>
    rw [hr] at hhandle hvalue
    exact InStep.of_throw hhandle hvalue ⟨_, hu⟩

lemma rebuild_steps {table : Bytes} (values : Fields) (replace : Bool) (ho : Owned w l) :
    Steps P (rebuild table values replace) (SQLiteWriter.rebuild table values replace) w l
      fun _ _ v u => Owned v u := by
  obtain ⟨blocks, ho⟩ := ho
  unfold rebuild SQLiteWriter.rebuild
  apply InStep.seq (outside_steps (fun f => SQLiteWriter.frame_columnLoop (keepsColumns_withStmts f) table true _ _
    values) ho)
  rintro ⟨q, qmarks⟩ _ v u ⟨rfl, hv, -⟩
  apply InStep.seq (prepare_steps table _ ⟨blocks, hv⟩)
  rintro _ _ v' u' ⟨blocks', hv'⟩
  apply (outside_steps (fun f => Frame.modify fun _ => rfl) hv').weaken
  · exact fun _ _ v u h => ⟨blocks', h.2.1⟩
  · exact fun _ _ h => h

lemma bindValues_steps {table : Bytes} (n : ℕ) (values : Fields) (ho : Owned w l) :
    Steps P (bindValues table n values) (SQLiteWriter.bindValues table n values) w l
      fun _ _ v u => Owned v u ∧ v = w := by
  induction values generalizing n l with
  | nil => exact InStep.pure ⟨ho, rfl⟩
  | cons p values ih =>
    apply InStep.seq (bindPrep_steps n (bindArg p.2) ho)
    rintro _ _ v u ⟨hv, rfl⟩
    exact ih (n + 1) hv

lemma bindQuery_steps (n : ℕ) (values : List VarT) (ho : Owned w l) :
    Steps P (bindQuery n values) (SQLiteWriter.bindQuery n values) w l fun _ _ v u => Owned v u ∧ v = w := by
  induction values generalizing n l with
  | nil => exact InStep.pure ⟨ho, rfl⟩
  | cons p values ih =>
    apply InStep.seq (bindPrep_steps n (bindArg p) ho)
    rintro _ _ v u ⟨hv, rfl⟩
    exact ih (n + 1) hv

lemma isPrepared_view (ho : Owned w l) (table : Bytes) :
    (view w l).dDb.isPrepared table = (w.stmt table).isSome := by
  obtain ⟨blocks, ho⟩ := ho
  unfold MiniSQLite.isPrepared
  rcases ho.split table with h | ⟨b, rest, hp⟩
  · rw [ho.dStmts_absent h, ho.stmt_absent h]
    rfl
  · have hfront := ho.perm hp
    rw [hfront.dStmts_head, hfront.stmt_head]
    rfl

lemma cached_view (ho : Owned w l) (table : Bytes) (values : Fields) (replace : Bool) :
    (view w l).cached table values replace = w.cached table values replace := by
  unfold SQLiteWriter.cached Writer.cached
  rw [isPrepared_view ho]
  rfl

lemma finish_steps {table : Bytes} (values : Fields) (ho : Owned w l) :
    Steps P (do bindValues table 1 values
                let _ ← execPrep table false 0)
      (do SQLiteWriter.bindValues table 1 values
          let _ ← SQLiteWriter.onDb (MiniSQLite.execPrep table false 0)) w l fun _ _ v u => Owned v u := by
  apply InStep.seq (bindValues_steps 1 values ho)
  rintro _ _ v u ⟨hv, rfl⟩
  apply InStep.seq (execPrep_steps false 0 hv)
  rintro _ _ v u ⟨-, hv⟩
  exact InStep.pure hv

theorem addValueGeneric_steps (table : Bytes) (values : Fields) (replace : Bool) (ho : Owned w l) :
    Steps P (addValueGeneric table values replace) (SQLiteWriter.addValueGeneric table values replace) w l
      fun _ _ v u => Owned v u := by
  unfold addValueGeneric SQLiteWriter.addValueGeneric
  apply InStep.get_bind
  rw [cached_view ho]
  change InStep _ _ _ _ _ (if w.fields.dFlag = .readOnly then _ else _) w l _ _
  by_cases hf : w.fields.dFlag = .readOnly
  · rw [if_pos hf, if_pos hf]
    exact InStep.throw ho
  · rw [if_neg hf, if_neg hf]
    cases hcached : w.cached table values replace with
    | true => exact finish_steps values ho
    | false =>
      apply InStep.seq (rebuild_steps values replace ho)
      intro _ _ v u hv
      exact finish_steps values hv

theorem queryGen_steps (q : Bytes) (values : List VarT) (msec : UInt32) (ho : Owned w l) :
    Steps P (queryGen q values msec) (SQLiteWriter.queryGen q values msec) w l
      fun b a v u => b = a ∧ Owned v u := by
  have hrun : Steps P (do prepare [] q
                          bindQuery 1 values
                          execPrep [] true msec)
      (do SQLiteWriter.onDb (MiniSQLite.prepare [] q)
          SQLiteWriter.bindQuery 1 values
          SQLiteWriter.onDb (MiniSQLite.execPrep [] true msec)) w l fun b a v u => b = a ∧ Owned v u := by
    apply InStep.seq (prepare_steps [] q ho)
    intro _ _ v u hv
    apply InStep.seq (bindQuery_steps 1 values hv)
    rintro _ _ v' u ⟨hv', rfl⟩
    exact execPrep_steps true msec hv'
  unfold queryGen SQLiteWriter.queryGen
  apply InStep.get_bind
  change InStep _ _ _ _ _ (if msec ≠ 0 ∧ w.fields.dFlag ≠ .readOnly then _ else _) w l _ _
  by_cases hm : msec ≠ 0 ∧ w.fields.dFlag ≠ .readOnly
  · rw [if_pos hm, if_pos hm]
    exact InStep.throw ho
  · rw [if_neg hm, if_neg hm]
    exact hrun

lemma cycle_steps (ho : Owned w l) :
    Steps P cycle (SQLiteWriter.onDb MiniSQLite.cycle) w l fun b a v u => b = a ∧ Owned v u := by
  obtain ⟨blocks, ho⟩ := ho
  have hframe : ∀ f, (SQLiteWriter.onDb MiniSQLite.cycle).Frame (withStmts f) := by
    intro f
    apply SQLiteWriter.frame_onDb (keepsColumns_withStmts f)
    exact Frame.bind (MiniSQLite.frame_exec _) fun _ => Frame.pure _
  apply (outside_steps hframe ho).weaken
  · rintro _ _ v u ⟨rfl, hv, -⟩
    exact ⟨rfl, _, hv⟩
  · exact fun _ _ h => h

end SqliteWrite.Handles
