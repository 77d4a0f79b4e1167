import SqliteWrite.Writer.Locks

/-! A process that is killed. Its threads may be anywhere, also in the middle of a critical section; what
SQLite has committed then is what the uses up to a recent tick of the commit thread have written. -/
namespace SqliteWrite
open Method

namespace Script
variable {Q : Type} {A : Q → Type} {α σ : Type} {h : (q : Q) → σ → A q × σ} {x y : Script Q A α} {s t : σ}

lemma Reaches.head (hr : Reaches h x s y t) :
    (y = x ∧ t = s) ∨ ∃ q f, x = .ask q f ∧ Reaches h (f (h q s).1) (h q s).2 y t := by
  induction hr with
  | start => exact Or.inl ⟨rfl, rfl⟩
  | @ask q f t _ ih =>
    rcases ih with ⟨hx, ht⟩ | ⟨q', f', hx, hr'⟩
    · subst ht
      exact Or.inr ⟨q, f, hx.symm, .start⟩
    · exact Or.inr ⟨q', f', hx, hr'.ask⟩

end Script

lemma Applied.trans {E : Engine} {db₁ db₂ db₃ : E.Db} {h h' : List (Call × Except Bytes Unit)} (h₁ : Applied E db₁ h db₂)
    (h₂ : Applied E db₂ h' db₃) : Applied E db₁ (h ++ h') db₃ := by
  induction h₂ with
  | nil => rwa [List.append_nil]
  | threw _ hd ih =>
    rw [← List.append_assoc]
    exact ih.threw hd
  | returned _ hd hi ih =>
    rw [← List.append_assoc]
    exact ih.returned hd hi

namespace Conn
variable {E : Engine} (c : Conn E)

end Conn

namespace SQLiteWriter
variable {E : Engine}

end SQLiteWriter

namespace Section
variable {E : Engine}

end Section

namespace Sys
variable {E : Engine}

/-- The database is what the uses have written up to a point after which the commit thread has made at
most `n` passes. -/
def Recent (s : Sys E) (us : List Use) (db : E.Db) (n : ℕ) : Prop :=
  ∃ kept lost, us = kept ++ lost ∧ db = (s.uses kept).conn.view ∧ lost.count (.event .poll) ≤ n

lemma Recent.append {s : Sys E} {us : List Use} {db : E.Db} {n : ℕ} (h : s.Recent us db n) (us' : List Use)
    {m : ℕ} (hm : n + us'.count (.event .poll) ≤ m) : s.Recent (us ++ us') db m := by
  obtain ⟨kept, lost, rfl, hdb, hcount⟩ := h
  refine ⟨kept, lost ++ us', List.append_assoc kept lost us', hdb, ?_⟩
  rw [List.count_append]
  omega

variable {τ : Type} [DecidableEq τ] {flag : SQLWFlag} {jobs : τ → List Job}

lemma Serial.uses_jobs {x : Shared (Option τ) Local Protected (Conn E)} {s : Sys E}
    {us : List (Option τ × Use × Result)} (hx : Serial flag jobs x s us) (is : List (Option τ)) :
    ∀ e ∈ x.uses flag is, e = (none, .event .poll) ∨ ∃ t, ∃ j ∈ jobs t, e = (some t, j.use) := by
  induction is generalizing x s us with
  | nil => exact fun e he => absurd he List.not_mem_nil
  | cons i is ih =>
    intro e he
    rcases List.mem_append.mp he with hhead | htail
    · cases i with
      | none =>
        rcases hx.committer with ⟨hlocal, -⟩ | ⟨hlocal, -⟩
        · rw [hlocal] at hhead
          exact Or.inl (by simpa [Local.next] using hhead)
        · rw [hlocal] at hhead
          simp [Local.next] at hhead
      | some t =>
        obtain ⟨todo, hlocal, hjobs⟩ := hx.user t
        rw [hlocal] at hhead
        cases todo with
        | nil => simp [Local.next] at hhead
        | cons j todo =>
          have hmem : j.use ∈ (jobs t).map Job.use := by
            rw [← hjobs]
            simp
          obtain ⟨j', hj', huse⟩ := List.mem_map.mp hmem
          refine Or.inr ⟨t, j', hj', ?_⟩
          rw [huse]
          simpa [Local.next] using hhead
    · rcases hx.turn i with ⟨-, hturn⟩ | ⟨u, -, hturn⟩
      · rw [hturn] at htail
        exact ih hx e htail
      · exact ih hturn e htail

/-- The queries only read, and no call goes to the table of the empty name. -/
structure Harmless (E : Engine) (us : List Use) : Prop where
  reads : ∀ q values msec, .query q values msec ∈ us → Selects E q
  tables : ∀ k, .event (.call k) ∈ us → k.table ≠ []

/-- Threads whose queries only read, and whose calls go to tables with a name. -/
structure HarmlessJobs (E : Engine) (jobs : τ → List Job) : Prop where
  reads : ∀ t q values msec, .query q values msec ∈ jobs t → Selects E q
  tables : ∀ t k, .call k ∈ jobs t → k.table ≠ []

lemma HarmlessJobs.lockOrder (h : HarmlessJobs E jobs) (flag : SQLWFlag) (columnMeta : Bytes → Bytes → Bytes)
    (db : E.Db) (is : List (Option τ)) : Harmless E ((Sys.lockOrder E flag columnMeta db jobs is).map (·.2)) := by
  have hjobs := (begin_serial flag columnMeta db jobs (E := E)).uses_jobs
    (Locked.order (Conn.answer E) (threads flag) ⟨begin E flag columnMeta db jobs, none⟩ is)
  constructor
  · intro q values msec hq
    obtain ⟨e, he, huse⟩ := List.mem_map.mp hq
    rcases hjobs e he with rfl | ⟨t, j, hj, rfl⟩
    · cases huse
    · cases j with
      | call k => cases huse
      | query q' values' msec' =>
        injection huse with hq hvalues hmsec
        exact hq ▸ h.reads t q' values' msec' hj
  · intro k hk
    obtain ⟨e, he, huse⟩ := List.mem_map.mp hk
    rcases hjobs e he with rfl | ⟨t, j, hj, rfl⟩
    · cases huse
    · cases j with
      | call k' =>
        injection huse with hev
        injection hev with hk
        exact hk ▸ h.tables t k' hj
      | query q values msec => cases huse

/-- The life of a process: the program of its threads, and how they ran until it was killed. -/
structure Lifetime (τ : Type) where
  columnMeta : Bytes → Bytes → Bytes
  jobs : τ → List Job
  schedule : List (Option τ)

namespace Lifetime

def order (l : Lifetime τ) (db : E.Db) : List Use :=
  (lockOrder E .noFlag l.columnMeta db l.jobs l.schedule).map (·.2)

end Lifetime

end Sys
end SqliteWrite
