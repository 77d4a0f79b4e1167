import SqliteWrite.Lib.Bytes

/-! Tokens of SQL text. The tokenizer is a machine that reads one byte at a time; a quoted name
or literal ends at its closing byte unless that byte is doubled, and NUL ends the text. -/
namespace SqliteWrite

inductive Token
  | word (b : Bytes)
  | quoted (quote : UInt8) (b : Bytes)
  | sym (c : UInt8)
  deriving DecidableEq, Repr

namespace Tokens

/-- The bytes of names, keywords and numerals; bytes above ASCII are letters. -/
def wordByte (c : UInt8) : Bool :=
  (48 ≤ c && c ≤ 57) || (65 ≤ c && c ≤ 90) || (97 ≤ c && c ≤ 122) || c == 95 || c == 36 || 128 ≤ c

def space (c : UInt8) : Bool := c == 32 || (9 ≤ c && c ≤ 13)

inductive Mode
  | start
  | word (acc : Bytes)
  | quote (first last : UInt8) (acc : Bytes)
  | closing (first last : UInt8) (acc : Bytes)
  | dash | lineComment | slash | blockComment | star
  deriving DecidableEq, Repr

/-- The byte that closes a quoted token, by the byte that opens it. -/
abbrev Quotes := UInt8 → Option UInt8

variable (closer : Quotes)

/-- A byte between two tokens. -/
def opening (c : UInt8) : List Token × Mode :=
  if space c then ([], .start)
  else match closer c with
    | some q => ([], .quote c q [])
    | none =>
      if wordByte c then ([], .word [c])
      else if c = 45 then ([], .dash)
      else if c = 47 then ([], .slash)
      else ([.sym c], .start)

/-- The tokens that one more byte completes, and what the machine is inside of afterwards. -/
def step : Mode → UInt8 → List Token × Mode
  | .start, c => opening closer c
  | .word acc, c =>
    if wordByte c then ([], .word (acc ++ [c]))
    else (.word acc :: (opening closer c).1, (opening closer c).2)
  | .quote a q acc, c => if c = q then ([], .closing a q acc) else ([], .quote a q (acc ++ [c]))
  | .closing a q acc, c =>
    if c = q ∧ a = q then ([], .quote a q (acc ++ [c]))
    else (.quoted a acc :: (opening closer c).1, (opening closer c).2)
  | .dash, c =>
    if c = 45 then ([], .lineComment)
    else (.sym 45 :: (opening closer c).1, (opening closer c).2)
  | .lineComment, c => ([], if c = 10 then .start else .lineComment)
  | .slash, c =>
    if c = 42 then ([], .blockComment)
    else (.sym 47 :: (opening closer c).1, (opening closer c).2)
  | .blockComment, c => ([], if c = 42 then .star else .blockComment)
  | .star, c => ([], if c = 47 then .start else if c = 42 then .star else .blockComment)

def feed : Mode → Bytes → List Token × Mode
  | m, [] => ([], m)
  | m, c :: s => ((step closer m c).1 ++ (feed (step closer m c).2 s).1,
      (feed (step closer m c).2 s).2)

/-- The token that the end of the text completes; an open quote is an error. -/
def finish : Mode → Option (List Token)
  | .start | .lineComment | .blockComment | .star => some []
  | .word acc => some [.word acc]
  | .quote _ _ _ => none
  | .closing a _ acc => some [.quoted a acc]
  | .dash => some [.sym 45]
  | .slash => some [.sym 47]

def tokens (s : Bytes) : Option (List Token) :=
  (finish (feed closer .start (cstr s)).2).map ((feed closer .start (cstr s)).1 ++ ·)

/-- The tokens that a bracket completes, outside of quotes and comments. -/
def settle : Mode → Option (List Token)
  | .start => some []
  | .word acc => some [.word acc]
  | .closing a q acc => if q = 41 then none else some [.quoted a acc]
  | .dash => some [.sym 45]
  | .slash => some [.sym 47]
  | .quote _ _ _ | .lineComment | .blockComment | .star => none

variable {closer}

lemma finish_of_settle {m : Mode} {xs : List Token} (h : settle m = some xs) :
    finish m = some xs := by
  cases m with
  | closing a q acc =>
    simp only [settle] at h
    split_ifs at h
    exact h
  | _ => first | exact h | cases h

lemma feed_bracket {m : Mode} {xs : List Token} (h : settle m = some xs) (hq : closer 41 = none) :
    feed closer m [41] = (xs ++ [.sym 41], .start) := by
  have hopen : opening closer 41 = ([.sym 41], .start) := by
    have hs : space 41 = false := rfl
    have hw : wordByte 41 = false := rfl
    simp [opening, hs, hw, hq]
  have hw : wordByte 41 = false := rfl
  cases m with
  | closing a q acc =>
    simp only [settle] at h
    split_ifs at h with h41
    cases h
    simp [feed, step, Ne.symm h41, hopen]
  | start => cases h; simp [feed, step, hopen]
  | word acc => cases h; simp [feed, step, hw, hopen]
  | dash => cases h; simp [feed, step, hopen]
  | slash => cases h; simp [feed, step, hopen]
  | _ => cases h

lemma feed_append (m : Mode) (s t : Bytes) :
    feed closer m (s ++ t) = ((feed closer m s).1 ++ (feed closer (feed closer m s).2 t).1,
      (feed closer (feed closer m s).2 t).2) := by
  induction s generalizing m with
  | nil => simp [feed]
  | cons c s ih => simp [feed, ih]

lemma feed_append_of {m n k : Mode} {s t : Bytes} {xs ys : List Token}
    (hs : feed closer m s = (xs, n)) (ht : feed closer n t = (ys, k)) :
    feed closer m (s ++ t) = (xs ++ ys, k) := by
  simp [feed_append, hs, ht]

lemma feed_quote (a q : UInt8) (acc n : Bytes) (hn : q ∉ n) :
    feed closer (.quote a q acc) n = ([], .quote a q (acc ++ n)) := by
  induction n generalizing acc with
  | nil => simp [feed]
  | cons c n ih =>
    obtain ⟨hc, hn⟩ := not_or.mp (List.mem_cons.not.mp hn)
    simp [feed, step, Ne.symm hc, ih (acc ++ [c]) hn]

lemma feed_closing (a q : UInt8) (n : Bytes) (c : UInt8) (s : Bytes) (hc : c ≠ q) :
    feed closer (.closing a q n) (c :: s) =
      (.quoted a n :: (feed closer .start (c :: s)).1, (feed closer .start (c :: s)).2) := by
  simp [feed, step, hc]

lemma space_wordByte {c : UInt8} (h : wordByte c = true) : space c = false := by
  simp only [wordByte, Bool.or_eq_true, Bool.and_eq_true, decide_eq_true_eq, beq_iff_eq, UInt8.le_iff_toNat_le,
    ← UInt8.toNat_inj] at h
  simp only [space, Bool.or_eq_false_iff, beq_eq_false_iff_ne, ne_eq, Bool.and_eq_false_iff,
    decide_eq_false_iff_not, UInt8.le_iff_toNat_le, ← UInt8.toNat_inj]
  simp only [UInt8.reduceToNat] at h ⊢
  omega

lemma feed_word (acc n : Bytes) (hn : n.all wordByte = true) :
    feed closer (.word acc) n = ([], .word (acc ++ n)) := by
  induction n generalizing acc with
  | nil => simp [feed]
  | cons c n ih =>
    obtain ⟨hc, hn⟩ := Bool.and_eq_true_iff.mp hn
    simp [feed, step, hc, ih (acc ++ [c]) hn]

lemma feed_bare {n : Bytes} (hne : n ≠ []) (hn : n.all wordByte = true)
    (hq : ∀ c, wordByte c = true → closer c = none) : feed closer .start n = ([], .word n) := by
  cases n with
  | nil => exact absurd rfl hne
  | cons c n =>
    obtain ⟨hc, hn⟩ := Bool.and_eq_true_iff.mp hn
    have hopen : feed closer .start [c] = ([], .word [c]) := by
      simp [feed, step, opening, space_wordByte hc, hq c hc, hc]
    exact feed_append_of hopen (feed_word [c] n hn)

lemma tokens_of_feed {s : Bytes} {xs ys : List Token} {m : Mode} (h0 : (0 : UInt8) ∉ s)
    (hs : feed closer .start s = (xs, m)) (hm : finish m = some ys) :
    tokens closer s = some (xs ++ ys) := by
  simp [tokens, cstr_eq_self h0, hs, hm]

end Tokens
end SqliteWrite
