import SqliteWrite.Writer.HandleSafety

/-! Whole runs of a writer with handles, up to its destructor. It does at every use what the writer does that
has the statements themselves; and when it is destroyed every statement that it ever made has been finalized,
once, and the connection is closed. -/
namespace SqliteWrite.Handles
open Method Writer

variable {E : Engine} {P : Allocator}

namespace System
variable {s : System E}

/-- The writer that has the statements themselves. -/
def shown (s : System E) : Sys E := ⟨view s.writer s.library, s.library.toConn, s.n, s.crashed, s.history⟩

/-- The handles are those of the statements that live. -/
def Sound (s : System E) : Prop := Owned s.writer s.library

lemma start_sound (flag : SQLWFlag) (columnMeta : Bytes → Bytes → Bytes) (db : E.Db) :
    (start E flag columnMeta db).Sound :=
  ⟨[], List.Perm.refl _, List.nodup_nil, Heap.owns_empty⟩

lemma start_shown (flag : SQLWFlag) (columnMeta : Bytes → Bytes → Bytes) (db : E.Db) :
    (start E flag columnMeta db).shown = Sys.start E flag columnMeta db := by
  unfold shown start view
  rw [Sys.start_eq]
  rfl

lemma addCall_shown (k : Call) (hs : s.Sound) :
    (s.addCall P k).shown = s.shown.addCall k ∧ (s.addCall P k).Sound := by
  have hrun : k.run (view s.writer s.library) s.library.toConn =
      (SQLiteWriter.addValueGeneric k.table k.values k.replace).invoke (Conn.answer E) (view s.writer s.library)
        s.library.toConn := rfl
  unfold addCall shown Sys.addCall Sound
  rcases (addValueGeneric_steps (P := P) k.table k.values k.replace hs).cases with
    ⟨_, _, v, u, hhandle, hvalue, howned⟩ | ⟨x, v, u, hhandle, hvalue, howned⟩
  · simp only [hrun, hhandle, hvalue]
    exact ⟨trivial, howned⟩
  · simp only [hrun, hhandle, hvalue]
    exact ⟨trivial, howned⟩

lemma commitThread_shown (hs : s.Sound) :
    (s.commitThread P).shown = s.shown.commitThread ∧ (s.commitThread P).Sound := by
  unfold commitThread Sys.commitThread
  by_cases hn : s.n % 20 = 0
  · have hpass : s.shown.n % 20 = 0 := hn
    rw [if_pos hn, if_pos hpass]
    unfold shown Sound
    rcases (cycle_steps (P := P) hs).cases with
      ⟨_, _, v, u, hhandle, hvalue, -, howned⟩ | ⟨x, v, u, hhandle, hvalue, howned⟩
    · simp only [hhandle, hvalue]
      exact ⟨trivial, howned⟩
    · simp only [hhandle, hvalue]
      exact ⟨trivial, howned⟩
  · have hpass : ¬ s.shown.n % 20 = 0 := hn
    rw [if_neg hn, if_neg hpass]
    exact ⟨rfl, hs⟩

lemma query_shown (q : Bytes) (values : List VarT) (msec : UInt32) (hs : s.Sound) :
    let r := (Writer.queryGen q values msec).invoke (Library.answer P E) s.writer s.library
    let r' := (SQLiteWriter.queryGen q values msec).invoke (Conn.answer E) s.shown.writer s.shown.conn
    r.1 = r'.1 ∧ view r.2.1 r.2.2 = r'.2.1 ∧ r.2.2.toConn = r'.2.2 ∧ Owned r.2.1 r.2.2 := by
  have hshown : (SQLiteWriter.queryGen q values msec).invoke (Conn.answer E) s.shown.writer s.shown.conn =
      (SQLiteWriter.queryGen q values msec).invoke (Conn.answer E) (view s.writer s.library)
        s.library.toConn := rfl
  rcases (queryGen_steps (P := P) q values msec hs).cases with
    ⟨b, a, v, u, hhandle, hvalue, rfl, howned⟩ | ⟨x, v, u, hhandle, hvalue, howned⟩
  · simp only [hshown, hhandle, hvalue]
    exact ⟨trivial, trivial, trivial, howned⟩
  · simp only [hshown, hhandle, hvalue]
    exact ⟨trivial, trivial, trivial, howned⟩

lemma use_shown (u : Use) (hs : s.Sound) : (s.use P u).shown = s.shown.use u ∧ (s.use P u).Sound := by
  by_cases hc : s.crashed = true
  · have hcrashed : s.shown.crashed = true := hc
    have hstays : s.shown.use u = s.shown := by
      cases u with
      | event ev => simp [Sys.use, Sys.step, hcrashed]
      | query q values msec => simp [Sys.use, hcrashed]
    have hsame : s.use P u = s := if_pos hc
    rw [hstays, hsame]
    exact ⟨rfl, hs⟩
  have hrunning : ¬ s.shown.crashed = true := hc
  cases u with
  | event ev =>
    unfold use Sys.use Sys.step
    rw [if_neg hc]
    simp only
    rw [if_neg hrunning]
    cases ev with
    | call k => exact addCall_shown k hs
    | poll =>
      have hflag : s.shown.writer.dFlag = s.writer.fields.dFlag := rfl
      simp only [hflag]
      by_cases hf : s.writer.fields.dFlag = .noFlag
      · rw [if_pos hf, if_pos hf]
        exact commitThread_shown hs
      · rw [if_neg hf, if_neg hf]
        exact ⟨rfl, hs⟩
  | query q values msec =>
    obtain ⟨-, hview, hconn, howned⟩ := query_shown (P := P) q values msec hs
    unfold use Sys.use
    rw [if_neg hc]
    simp only
    rw [if_neg hrunning, ← hview, ← hconn]
    exact ⟨rfl, howned⟩

lemma uses_shown (us : List Use) (hs : s.Sound) : (s.uses P us).shown = s.shown.uses us ∧ (s.uses P us).Sound := by
  induction us generalizing s with
  | nil => exact ⟨rfl, hs⟩
  | cons u us ih =>
    obtain ⟨hshown, hsound⟩ := use_shown (P := P) u hs
    obtain ⟨hrest, hends⟩ := ih hsound
    refine ⟨?_, hends⟩
    change ((s.use P u).uses P us).shown = (s.shown.use u).uses us
    rw [hrest, hshown]

lemma Sound.places (hs : s.Sound) : s.library.stmts.fault = false ∧ (s.writer.handles.map (·.1)).Nodup ∧
    (s.writer.handles.map (·.2)).Perm (s.library.stmts.live.map (·.address)) := by
  obtain ⟨blocks, ho⟩ := hs
  refine ⟨ho.stmts.fault, ho.handles_nodup, ?_⟩
  have hhandles := ho.handles.map (·.2)
  have hlive := ho.stmts.live.map (·.address)
  rw [List.map_map] at hhandles hlive
  exact hhandles.trans hlive.symm

/-- However a writer is used, it does with the handles what it does with the statements, and each query gives
the same result; no handle is used after its statement was finalized, and there is one for each statement
that lives. -/
theorem uses_refine (P : Allocator) (flag : SQLWFlag) (columnMeta : Bytes → Bytes → Bytes) (db : E.Db)
    (us : List Use) :
    let s := (start E flag columnMeta db).uses P us
    s.shown = (Sys.start E flag columnMeta db).uses us ∧
    (∀ q values msec, ((Writer.queryGen q values msec).invoke (Library.answer P E) s.writer s.library).1 =
      ((SQLiteWriter.queryGen q values msec).invoke (Conn.answer E)
        ((Sys.start E flag columnMeta db).uses us).writer ((Sys.start E flag columnMeta db).uses us).conn).1) ∧
    s.library.stmts.fault = false ∧ (s.writer.handles.map (·.1)).Nodup ∧
      (s.writer.handles.map (·.2)).Perm (s.library.stmts.live.map (·.address)) := by
  obtain ⟨hshown, hsound⟩ := uses_shown (P := P) us (start_sound flag columnMeta db)
  rw [start_shown] at hshown
  refine ⟨hshown, fun q values msec => ?_, hsound.places⟩
  rw [← hshown]
  exact (query_shown q values msec hsound).1

lemma finalize_all {w : Writer} (handles : List (Bytes × ℕ)) {l : Library E} {blocks : List (Bytes × Block Stmt)}
    (hp : handles.Perm (blocks.map fun e => (e.1, e.2.address))) (ho : l.stmts.Owns (blocks.map (·.2))) :
    ∃ u, (handles.forM fun e => sqlite3Finalize (some e.2)).invoke (Library.answer P E) w l = (.ok ⟨⟩, w, u) ∧
      u.toConn = l.toConn ∧ u.stmts.Owns [] := by
  induction handles generalizing l blocks with
  | nil =>
    have hnil : blocks = [] := List.map_eq_nil_iff.mp hp.nil_eq.symm
    rw [hnil] at ho
    exact ⟨l, rfl, rfl, ho⟩
  | cons e handles ih =>
    -- the handle is the one of a statement that lives
    obtain ⟨b, hb, rfl⟩ := List.mem_map.mp (hp.mem_iff.mp List.mem_cons_self)
    obtain ⟨before, after, rfl⟩ := List.append_of_mem hb
    have hfront : (before ++ b :: after).Perm (b :: (before ++ after)) := List.perm_middle
    have howns := ho.perm (hfront.map (·.2))
    have hrest : handles.Perm ((before ++ after).map fun e => (e.1, e.2.address)) :=
      (hp.trans (hfront.map _)).cons_inv
    rw [List.map_cons] at howns
    obtain ⟨u, hinvoke, hconn, hnone⟩ := ih (l := { l with stmts := l.stmts.free b.2.address }) hrest howns.free.1
    refine ⟨u, ?_, hconn, hnone⟩
    change (sqlite3Finalize (some b.2.address) >>= fun _ => handles.forM fun e => sqlite3Finalize (some e.2)).invoke
      (Library.answer P E) w l = _
    rw [invoke_bind, invoke_sqlite3Finalize]
    exact hinvoke

lemma finalize_close {w : Writer} {l : Library E} (ho : Owned w l) :
    ∃ u, (do w.handles.forM fun e => sqlite3Finalize (some e.2)
             sqlite3Close : M Unit).invoke (Library.answer P E) w l = (.ok (), w, u) ∧
      u.toConn = l.toConn ∧ u.closed = true ∧ u.stmts.Owns [] := by
  obtain ⟨blocks, ho⟩ := ho
  obtain ⟨u, hinvoke, hconn, hnone⟩ := finalize_all (P := P) (w := w) w.handles ho.handles ho.stmts
  refine ⟨{ u with closed := true }, ?_, hconn, rfl, hnone⟩
  rw [invoke_bind, hinvoke]
  simp only [invoke_sqlite3Close, Library.close, hnone.all_freed.1, List.isEmpty_nil, if_true]

lemma destroy_steps {w : Writer} {l : Library E} (ho : Owned w l) :
    Steps P (outside (SQLiteWriter.onDb MiniSQLite.destroy)) (SQLiteWriter.onDb MiniSQLite.destroy) w l
      fun _ _ v u => Owned v u := by
  obtain ⟨blocks, ho⟩ := ho
  have hframe : ∀ f, (SQLiteWriter.onDb MiniSQLite.destroy).Frame (withStmts f) := by
    intro f
    apply SQLiteWriter.frame_onDb (keepsColumns_withStmts f)
    refine Frame.get_bind (fun _ => rfl) fun db => ?_
    by_cases hopen : db.dIntransaction = true
    · rw [if_pos hopen]
      exact Frame.bind (Frame.modify fun _ => rfl) fun _ => Frame.bind (MiniSQLite.frame_exec _) fun _ => Frame.pure _
    · rw [if_neg hopen]
      exact Frame.pure _
  apply (outside_steps hframe ho).weaken
  · exact fun _ _ v u h => ⟨_, h.2.1⟩
  · exact fun _ _ h => h

/-- The destructor does to the connection what it does without handles; and unless an exception leaves it,
nothing is left. -/
theorem destroy_frees (P : Allocator) (flag : SQLWFlag) (columnMeta : Bytes → Bytes → Bytes) (db : E.Db)
    (us : List Use) :
    let t := ((start E flag columnMeta db).uses P us).destroy P
    let t' := ((Sys.start E flag columnMeta db).uses us).destroy
    t.library.toConn = t'.conn ∧ t.crashed = t'.crashed ∧ t.library.stmts.fault = false ∧
    (t.crashed = false → t.library.closed = true ∧ t.library.stmts.live = [] ∧
      t.library.stmts.freed.Perm (List.range t.library.stmts.made)) := by
  obtain ⟨hshown, hsound⟩ := uses_shown (P := P) us (start_sound flag columnMeta db)
  rw [start_shown] at hshown
  rw [← hshown]
  generalize (start E flag columnMeta db).uses P us = s at hsound
  unfold destroy Sys.destroy
  by_cases hc : s.crashed = true
  · have hcrashed : s.shown.crashed = true := hc
    rw [if_pos hc, if_pos hcrashed]
    exact ⟨rfl, rfl, hsound.places.1, fun h => absurd (hc.symm.trans h) (by simp)⟩
  have hrunning : ¬ s.shown.crashed = true := hc
  rw [if_neg hc, if_neg hrunning]
  unfold Writer.destroy shown
  rcases (destroy_steps (P := P) hsound).cases with
    ⟨_, _, v, u, hhandle, hvalue, howned⟩ | ⟨x, v, u, hhandle, hvalue, howned⟩
  · obtain ⟨u', hclose, hconn, hclosed, hnone⟩ := finalize_close (P := P) howned
    rw [invoke_bind, hhandle]
    simp only [hvalue]
    rw [invoke_bind, invoke_get]
    simp only [hclose]
    exact ⟨hconn, trivial, hnone.fault, fun _ => ⟨hclosed, hnone.all_freed⟩⟩
  · obtain ⟨blocks, ho⟩ := howned
    rw [invoke_bind, hhandle]
    simp only [hvalue]
    exact ⟨trivial, trivial, ho.stmts.fault, fun h => absurd h (by simp [Except.isOk, Except.toBool])⟩

end System
end SqliteWrite.Handles
