import SqliteWrite.Lib.Tokens

/-! Names put between quotes without care. Read back, such a text gives the name that was put there
only if the name holds neither the quote nor NUL. -/
namespace SqliteWrite
namespace Tokens

/-- The content of a quoted token behind its opening byte, and the text after the token. -/
def unquote (q : UInt8) : Bytes → Option (Bytes × Bytes)
  | [] => none
  | [c] => if c = q then some ([], []) else none
  | c :: d :: s =>
    if c = q then
      if d = q then (unquote q s).map fun r => (q :: r.1, r.2) else some ([], d :: s)
    else (unquote q (d :: s)).map fun r => (c :: r.1, r.2)

variable {closer : Quotes} {q : UInt8}

/-- The tokens of a text from a mode on. -/
def scan (closer : Quotes) (m : Mode) (s : Bytes) : Option (List Token) :=
  (finish (feed closer m s).2).map ((feed closer m s).1 ++ ·)

lemma tokens_eq_scan (s : Bytes) : tokens closer s = scan closer .start (cstr s) := rfl

lemma scan_append {m n : Mode} {s : Bytes} {xs : List Token} (h : feed closer m s = (xs, n)) (t : Bytes) :
    scan closer m (s ++ t) = (scan closer n t).map (xs ++ ·) := by
  unfold scan
  rw [feed_append, h]
  cases finish (feed closer n t).2 <;> simp

lemma scan_content {c : UInt8} (hc : c ≠ q) (acc s : Bytes) :
    scan closer (.quote q q acc) (c :: s) = scan closer (.quote q q (acc ++ [c])) s := by
  simp [scan, feed, step, hc]

lemma scan_closed {d : UInt8} (hd : d ≠ q) (acc s : Bytes) :
    scan closer (.quote q q acc) (q :: d :: s) = (scan closer .start (d :: s)).map (.quoted q acc :: ·) := by
  have hquote : feed closer (.quote q q acc) [q] = ([], .closing q q acc) := by simp [feed, step]
  rw [show q :: d :: s = [q] ++ d :: s from rfl, scan_append hquote]
  unfold scan
  rw [feed_closing q q acc d s hd]
  cases finish (feed closer .start (d :: s)).2 <;> simp

lemma scan_doubled (acc s : Bytes) : scan closer (.quote q q acc) (q :: q :: s) =
    scan closer (.quote q q (acc ++ [q])) s := by
  simp [scan, feed, step]

/-- Inside of quotes, the tokens are the quoted one and those of the text behind it. -/
lemma scan_quote : (acc s : Bytes) → scan closer (.quote q q acc) s =
    (unquote q s).bind fun r => (scan closer .start r.2).map (.quoted q (acc ++ r.1) :: ·)
  | acc, [] => rfl
  | acc, [c] => by
    by_cases hc : c = q
    · simp [scan, feed, step, finish, unquote, hc]
    · simp [scan, feed, step, finish, unquote, hc]
  | acc, c :: d :: s => by
    by_cases hc : c = q
    · by_cases hd : d = q
      · rw [hc, hd, scan_doubled, scan_quote (acc ++ [q]) s]
        simp [unquote, Option.bind_map]
      · rw [hc, scan_closed hd]
        simp [unquote, hd]
    · rw [scan_content hc, scan_quote (acc ++ [c]) (d :: s)]
      simp [unquote, hc, Option.bind_map]

lemma unquote_length : (s : Bytes) → ∀ r, unquote q s = some r → r.1.length + 1 ≤ s.length
  | [], r, h => by cases h
  | [c], r, h => by
    unfold unquote at h
    split_ifs at h
    cases h
    simp
  | c :: d :: s, r, h => by
    unfold unquote at h
    split_ifs at h
    · obtain ⟨r', hr', rfl⟩ := Option.map_eq_some_iff.mp h
      have hlen := unquote_length s r' hr'
      simp only [List.length_cons]
      omega
    · cases h
      simp
    · obtain ⟨r', hr', rfl⟩ := Option.map_eq_some_iff.mp h
      have hlen := unquote_length (d :: s) r' hr'
      simp only [List.length_cons] at hlen ⊢
      omega

lemma unquote_head {s : Bytes} (hs : s.head? ≠ some q) {r : Bytes × Bytes} (h : unquote q s = some r) :
    ∃ c t, c ≠ q ∧ r.1 = c :: t := by
  match s with
  | [] => cases h
  | [c] =>
    have hc : c ≠ q := fun heq => hs (by simp [heq])
    simp [unquote, hc] at h
  | c :: d :: s =>
    have hc : c ≠ q := fun heq => hs (by simp [heq])
    simp only [unquote, if_neg hc] at h
    obtain ⟨r', -, rfl⟩ := Option.map_eq_some_iff.mp h
    exact ⟨c, r'.1, hc, rfl⟩

lemma unquote_cons {c : UInt8} (hc : c ≠ q) {s : Bytes} (hs : s ≠ []) :
    unquote q (c :: s) = (unquote q s).map fun r => (c :: r.1, r.2) := by
  cases s with
  | nil => exact absurd rfl hs
  | cons d s => simp [unquote, hc]

lemma behind_cons {c : UInt8} (hc : c ≠ q) {n rest r : Bytes} {j : ℕ}
    (ih : unquote q (n ++ q :: rest) = some (n, r) → q ∉ n ∧ r = rest)
    (h : unquote q (c :: n ++ q :: rest) = some (List.replicate j q ++ c :: n, r)) :
    j = 0 ∧ q ∉ c :: n ∧ r = rest := by
  rw [List.cons_append, unquote_cons hc (by simp)] at h
  obtain ⟨r', hr', heq⟩ := Option.map_eq_some_iff.mp h
  cases j with
  | zero =>
    have hfst : c :: r'.1 = c :: n := congrArg Prod.fst heq
    have hsnd : r'.2 = r := congrArg Prod.snd heq
    have hr : r' = (n, r) := Prod.ext (List.cons.inj hfst).2 hsnd
    obtain ⟨hn, hrest⟩ := ih (hr ▸ hr')
    exact ⟨rfl, by simp [Ne.symm hc, hn], hrest⟩
  | succ j =>
    rw [List.replicate_succ] at heq
    exact absurd (List.cons.inj (congrArg Prod.fst heq)).1 hc

/-- A name between quotes that is read back as it is holds no quote. The doubled quotes that have
been read count half, so that the content falls behind: by `j` quotes in the induction. -/
lemma unquote_behind {rest r : Bytes} (hrest : rest.head? ≠ some q) : (n : Bytes) → (j : ℕ) →
    unquote q (n ++ q :: rest) = some (List.replicate j q ++ n, r) → j = 0 ∧ q ∉ n ∧ r = rest
  | [], j, h => by
    cases rest with
    | nil =>
      simp only [List.nil_append, List.append_nil, unquote, if_true, Option.some.injEq, Prod.mk.injEq] at h
      have hj : j = 0 := by simpa using h.1.symm
      exact ⟨hj, by simp, h.2.symm⟩
    | cons d rest =>
      have hd : d ≠ q := fun heq => hrest (by simp [heq])
      simp only [List.nil_append, List.append_nil, unquote, if_true, if_neg hd, Option.some.injEq,
        Prod.mk.injEq] at h
      have hj : j = 0 := by simpa using h.1.symm
      exact ⟨hj, by simp, h.2.symm⟩
  | [c], j, h => by
    by_cases hc : c = q
    · -- The closing quote was taken as the second of two, and the content goes on behind it.
      rw [hc] at h
      simp only [List.cons_append, List.nil_append, unquote, if_true] at h
      obtain ⟨r', hr', heq⟩ := Option.map_eq_some_iff.mp h
      obtain ⟨c', t, hc', hcontent⟩ := unquote_head hrest hr'
      have hreplicate : q :: r'.1 = List.replicate (j + 1) q := by
        rw [List.replicate_succ']
        exact congrArg Prod.fst heq
      have hmem : c' ∈ List.replicate (j + 1) q := by
        rw [← hreplicate, hcontent]
        simp
      exact absurd (List.eq_of_mem_replicate hmem) hc'
    · exact behind_cons hc (fun hr => (unquote_behind hrest [] 0 hr).2) h
  | c :: d :: n, j, h => by
    by_cases hc : c = q
    · rw [hc] at h
      by_cases hd : d = q
      · rw [hd] at h
        simp only [List.cons_append, unquote, if_true] at h
        obtain ⟨r', hr', heq⟩ := Option.map_eq_some_iff.mp h
        have hahead : q :: r'.1 = q :: (List.replicate (j + 1) q ++ n) := by
          have hfst : q :: r'.1 = List.replicate j q ++ q :: q :: n := congrArg Prod.fst heq
          rw [hfst, List.append_cons, List.append_cons, ← List.replicate_succ', ← List.replicate_succ',
            List.replicate_succ, List.cons_append]
        have hsnd : r'.2 = r := congrArg Prod.snd heq
        have hr : r' = (List.replicate (j + 1) q ++ n, r) := Prod.ext (List.cons.inj hahead).2 hsnd
        have hzero := (unquote_behind hrest n (j + 1) (hr ▸ hr')).1
        omega
      · simp only [List.cons_append, unquote, if_true, if_neg hd, Option.some.injEq, Prod.mk.injEq] at h
        cases j <;> cases h.1
    · exact behind_cons hc (fun hr => (unquote_behind hrest (d :: n) 0 hr).2) h

lemma unquote_cstr (hq : q ≠ 0) {n rest r : Bytes} (hrest : rest.head? ≠ some q)
    (h : unquote q (cstr (n ++ q :: rest)) = some (n, r)) : 0 ∉ n ∧ q ∉ n ∧ r = cstr rest := by
  by_cases h0 : 0 ∈ n
  · -- The text ends inside the name.
    have hcut : cstr (n ++ q :: rest) = cstr n := cstr_append_nul h0 _
    have hlen := unquote_length _ _ h
    rw [hcut] at hlen
    have hshort : (cstr n).length ≤ n.length := (List.takeWhile_sublist _).length_le
    simp only at hlen
    omega
  · have hkeep : cstr (n ++ q :: rest) = n ++ q :: cstr rest := by
      rw [cstr_append h0]
      simp [cstr, hq]
    rw [hkeep] at h
    have hhead : (cstr rest).head? ≠ some q := by
      cases rest with
      | nil => simp [cstr]
      | cons d rest =>
        by_cases hd : d = 0
        · simp [cstr, hd]
        · simpa [cstr, hd] using hrest
    obtain ⟨-, hn, hr⟩ := unquote_behind hhead n 0 h
    exact ⟨h0, hn, hr⟩

lemma scan_cstr_append {m n : Mode} {s : Bytes} {xs : List Token} (h0 : 0 ∉ s)
    (h : feed closer m s = (xs, n)) (t : Bytes) :
    scan closer m (cstr (s ++ t)) = (scan closer n (cstr t)).map (xs ++ ·) := by
  rw [cstr_append h0, scan_append h]

/-- A name that was put between quotes, and what the first token there says of it. -/
theorem scan_name (hq : q ≠ 0) {n rest : Bytes} (hrest : rest.head? ≠ some q) {ts : List Token}
    (h : scan closer (.quote q q []) (cstr (n ++ q :: rest)) = some ts) :
    ∃ c ts', ts = .quoted q c :: ts' ∧
      (c = n → 0 ∉ n ∧ q ∉ n ∧ scan closer .start (cstr rest) = some ts') := by
  rw [scan_quote] at h
  obtain ⟨⟨c, r⟩, hr, hmap⟩ := Option.bind_eq_some_iff.mp h
  obtain ⟨ts', hts', rfl⟩ := Option.map_eq_some_iff.mp hmap
  refine ⟨c, ts', rfl, ?_⟩
  rintro rfl
  obtain ⟨h0, hn, rfl⟩ := unquote_cstr hq hrest hr
  exact ⟨h0, hn, hts'⟩

end Tokens
end SqliteWrite
