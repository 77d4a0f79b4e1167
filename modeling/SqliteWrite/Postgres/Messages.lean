import SqliteWrite.Lib.Heap
import SqliteWrite.Lib.Lockstep
import SqliteWrite.Postgres.Limits

/-! The messages of `PSQLWriter` on the heap. `addValue` makes a message with `new` and writes its address
to the pipe; the worker reads addresses, looks at what lives there, and deletes the messages of a table
once they are inserted. -/
namespace SqliteWrite.Psql
open Method (InStep)

/-- The world with its memory: the messages on the heap, and the addresses in the pipe. -/
structure Memory (S : Server) extends World S where
  heap : Heap Message
  addresses : List ℕ

/-- The requests of the worker and its accesses to the pipe and the heap. -/
inductive HeapRequest
  | outside (q : Request)
  | read
  | load (address : ℕ)
  | delete (address : ℕ)

/-- How a `read` of the pipe ends. -/
inductive AddressRead
  | address (a : ℕ)
  | eof
  | again
  | failed

abbrev HeapReply : HeapRequest → Type
  | .outside q => Reply q
  | .read => AddressRead
  | .load _ => Option Message
  | .delete _ => Unit

namespace Memory
variable {S : Server} (P : Allocator)

/-- A message is made and its address written to the pipe; a writer that is being destroyed is not called. -/
def event (w : Memory S) : Event → Memory S
  | .addValue table values =>
    if w.closed then w
    else { w with
      toWorld := w.toWorld.event (.addValue table values)
      heap := w.heap.alloc P (message table values)
      addresses := w.addresses ++ [(w.heap.next P (message table values)).address] }
  | .close => { w with toWorld := w.toWorld.event .close }

/-- The other threads act. -/
def arrive (w : Memory S) : Memory S :=
  { (w.arrivals w.now).foldl (event P) w with now := w.now + 1 }

/-- A `read` of the pipe, which does not block. -/
def read (w : Memory S) : AddressRead × Memory S :=
  match w.addresses with
  | a :: rest => (.address a, { w with toWorld := w.toWorld.read.2, addresses := rest })
  | [] => (if w.closed then .eof else .again, w)

/-- The other threads act before each request to the outside. That `new` is called between two accesses to
the heap is left out: it is then the call after them with an allocator that answers the same. -/
def answer (S : Server) : (q : HeapRequest) → Memory S → HeapReply q × Memory S
  | .outside q, w =>
    ((World.answer S q w.toWorld).1, { w.arrive P with toWorld := (World.answer S q w.toWorld).2 })
  | .read, w => (w.arrive P).read
  | .load a, w => ((w.heap.load a).1, { w with heap := (w.heap.load a).2 })
  | .delete a, w => ((), { w with heap := w.heap.free a })

end Memory

namespace OnHeap

/-- The methods of the worker that has addresses in hand. -/
abbrev M := Method HeapRequest HeapReply Worker

/-- What does not touch the messages. -/
def outside {α : Type} (m : Psql.M α) : M α := m.embed HeapRequest.outside fun _ r => r

/-- Nothing more is said of a run that looks at nothing. -/
def load (a : ℕ) : M Message := do
  match ← Method.ask (HeapRequest.load a) with
  | some m => pure m
  | none => throw (ascii "segmentation fault")

def delete (a : ℕ) : M Unit := Method.ask (HeapRequest.delete a)

def gather : ℕ → Groups Bytes ℕ → Int32 → M (Option (Groups Bytes ℕ))
  | 0, tabwork, _ => pure (some tabwork)
  | n + 1, tabwork, sumparms =>
    if sumparms < 60000 then do
      outside PSQLWriter.waitIfNeeded
      match ← Method.ask HeapRequest.read with
      | .address a =>
        let m ← load a
        modify fun w => { w with needWait := false }
        gather n (tabwork.push m.table a) (sumparms + Int32.ofNat m.values.length)
      | .again =>
        modify fun w => { w with needWait := true }
        pure (some tabwork)
      | .eof =>
        if !tabwork.entries.isEmpty then pure (some tabwork)
        else
          let _ ← outside (MiniPSQL.exec .commit)
          pure none
      | .failed =>
        let _ ← outside (MiniPSQL.exec .commit)
        pure none
    else pure (some tabwork)

/-- The loop over the entries of a message, which stays where it is while columns are added. -/
def checkEntries (table : Bytes) (a : ℕ) (fields : List Bytes) (es : List (Bytes × VarT)) : M (List Bytes) :=
  es.foldlM (fun fields f => do
    let _ ← load a
    outside (PSQLWriter.checkField table fields f)) fields

def checkFields (H : HashOrder) (table : Bytes) (work : List ℕ) : M (List Bytes) :=
  work.foldlM (fun fields a => do
    let m ← load a
    checkEntries table a fields (H.entries m)) []

def processTable (H : HashOrder) (e : Bytes × List ℕ) : M Unit := do
  let w ← get
  if (w.schemas e.1).isNone then
    let schema ← outside (MiniPSQL.getSchema e.1)
    modify fun w => PSQLWriter.setSchema w e.1 schema
  let fields ← checkFields H e.1 e.2
  let work ← e.2.mapM load
  let _ ← outside (MiniPSQL.exec (.insert e.1 (H.ofSet fields) work))
  e.2.forM delete
  outside PSQLWriter.commitIfLater

def batches (H : HashOrder) : ℕ → M Bool
  | 0 => pure false
  | fuel + 1 => do
    match ← gather 10000 Groups.empty 0 with
    | none => pure true
    | some tabwork =>
      tabwork.entries.forM (processTable H)
      batches H fuel

def commitThread (H : HashOrder) (fuel : ℕ) : M Bool := do
  let _ ← outside (MiniPSQL.exec .begin)
  let t ← outside time
  modify fun w => { w with prevcommit := t }
  batches H fuel

end OnHeap

/-- The messages of the statements that were accepted. -/
def inserted (lg : Log) : List Message :=
  lg.flatMap fun e => match e with
    | (.insert _ _ work, .ok _) => work
    | _ => []

variable {S : Server} {P : Allocator}

namespace Memory

/-- The worker owns the messages that it has in hand, and the pipe owns those whose addresses are in it. The
heap holds what `addValue` was given, and what was deleted are the messages `done`. -/
structure Owns (w : Memory S) (held : List (Block Message)) (done : List Message) : Prop where
  live : ∃ piped : List (Block Message), w.addresses = piped.map (·.address) ∧ w.pipe = piped.map (·.value) ∧
    w.heap.Owns (held ++ piped)
  made : w.heap.made = w.sent.length
  content : ∀ b ∈ w.heap.live, w.sent[b.serial]? = some b.value
  accounted : w.heap.freed.map (w.sent[·]?) = done.map some

variable {w : Memory S} {held : List (Block Message)} {done : List Message}

lemma event_world (w : Memory S) (e : Event) : (w.event P e).toWorld = w.toWorld.event e := by
  cases e with
  | addValue table values =>
    by_cases hc : w.closed = true
    · simp [event, World.event, hc]
    · simp [event, hc]
  | close => rfl

lemma events_world (w : Memory S) (es : List Event) :
    (es.foldl (event P) w).toWorld = es.foldl World.event w.toWorld := by
  induction es generalizing w with
  | nil => rfl
  | cons e es ih => rw [List.foldl_cons, List.foldl_cons, ih, event_world]

lemma arrive_world (w : Memory S) : (w.arrive P).toWorld = w.toWorld.arrive := by
  unfold arrive World.arrive
  rw [← events_world (P := P)]

lemma Owns.load (h : w.Owns held done) {b : Block Message} (hb : b ∈ held) :
    answer P S (.load b.address) w = (some b.value, w) := by
  obtain ⟨piped, -, -, howns⟩ := h.live
  have hload := howns.load (List.mem_append_left _ hb)
  change ((w.heap.load b.address).1, { w with heap := (w.heap.load b.address).2 }) = _
  rw [hload]

lemma Owns.accounted_append (h : w.Owns held done) (d : List Message) :
    w.heap.freed.map ((w.sent ++ d)[·]?) = done.map some := by
  obtain ⟨piped, -, -, howns⟩ := h.live
  rw [← h.accounted]
  apply List.map_congr_left
  intro i hi
  have hlt := howns.serial_lt (List.mem_append_left _ hi)
  rw [h.made] at hlt
  exact List.getElem?_append_left hlt

lemma Owns.congr {v : Memory S} (h : w.Owns held done) (ha : v.addresses = w.addresses) (hp : v.pipe = w.pipe)
    (hh : v.heap = w.heap) (hs : v.sent = w.sent) : v.Owns held done := by
  obtain ⟨hlive, hmade, hcontent, haccounted⟩ := h
  constructor
  · rw [ha, hp, hh]
    exact hlive
  · rw [hh, hs]
    exact hmade
  · rw [hh, hs]
    exact hcontent
  · rw [hh, hs]
    exact haccounted

lemma Owns.event (h : w.Owns held done) (e : Event) : (w.event P e).Owns held done := by
  cases e with
  | close => exact h.congr rfl rfl rfl rfl
  | addValue table values =>
    by_cases hc : w.closed = true
    · have hsame : w.event P (.addValue table values) = w := if_pos hc
      rw [hsame]
      exact h
    obtain ⟨piped, haddresses, hpipe, howns⟩ := h.live
    have hopen : w.toWorld.event (.addValue table values) = { w.toWorld with
        pipe := w.pipe ++ [message table values], sent := w.sent ++ [message table values] } := if_neg hc
    have hevent : w.event P (.addValue table values) = { w with
        toWorld := w.toWorld.event (.addValue table values)
        heap := w.heap.alloc P (message table values)
        addresses := w.addresses ++ [(w.heap.next P (message table values)).address] } := if_neg hc
    rw [hevent, hopen]
    refine ⟨⟨piped ++ [w.heap.next P (message table values)], ?_, ?_, ?_⟩, ?_, ?_, h.accounted_append _⟩
    · simp [haddresses]
    · simp [hpipe, Heap.next]
    · apply (howns.alloc P (message table values)).perm
      rw [← List.append_assoc]
      exact (List.perm_append_singleton _ _).symm
    · simp [Heap.alloc, h.made]
    · intro b hb
      rcases List.mem_append.mp hb with hb | hb
      · have hsome := h.content b hb
        obtain ⟨hlt, -⟩ := List.getElem?_eq_some_iff.mp hsome
        exact (List.getElem?_append_left hlt).trans hsome
      · rw [List.mem_singleton.mp hb]
        simp [Heap.next, h.made]

lemma Owns.arrive (h : w.Owns held done) : (w.arrive P).Owns held done := by
  have hevents : ∀ (es : List Event) (v : Memory S), v.Owns held done →
      (es.foldl (Memory.event P) v).Owns held done := by
    intro es
    induction es with
    | nil => exact fun _ hv => hv
    | cons e es ih => exact fun v hv => ih _ (hv.event e)
  exact (hevents (w.arrivals w.now) w h).congr rfl rfl rfl rfl

lemma Owns.delete {b : Block Message} (h : w.Owns (b :: held) done) :
    { w with heap := w.heap.free b.address }.Owns held (done ++ [b.value]) := by
  obtain ⟨piped, haddresses, hpipe, howns⟩ := h.live
  have hcontent := h.content b (howns.live.mem_iff.mpr List.mem_cons_self)
  have hcons : w.heap.Owns (b :: (held ++ piped)) := howns
  obtain ⟨hrest, hfreed, hmade⟩ := hcons.free
  refine ⟨⟨piped, haddresses, hpipe, hrest⟩, hmade.trans h.made, ?_, ?_⟩
  · intro c hc
    apply h.content c
    apply howns.live.mem_iff.mpr
    exact List.mem_cons_of_mem _ (hrest.live.mem_iff.mp hc)
  · change (w.heap.free b.address).freed.map (w.sent[·]?) = _
    rw [hfreed, List.map_append, List.map_append, h.accounted, List.map_singleton, hcontent]
    rfl

lemma Owns.perm {held' : List (Block Message)} (h : w.Owns held done) (hp : held.Perm held') :
    w.Owns held' done := by
  obtain ⟨piped, haddresses, hpipe, howns⟩ := h.live
  exact ⟨⟨piped, haddresses, hpipe, howns.perm (hp.append_right piped)⟩, h.made, h.content, h.accounted⟩

lemma Owns.read (h : w.Owns held done) :
    (∃ b v, w.read = (.address b.address, v) ∧ w.toWorld.read = (.message b.value, v.toWorld) ∧
      v.Owns (b :: held) done ∧ v.log = w.log) ∨
    (w.read = (.eof, w) ∧ w.toWorld.read = (.eof, w.toWorld)) ∨
    (w.read = (.again, w) ∧ w.toWorld.read = (.again, w.toWorld)) := by
  obtain ⟨piped, haddresses, hpipe, howns⟩ := h.live
  cases piped with
  | nil =>
    have hread : w.read = (if w.closed then .eof else .again, w) := by simp [Memory.read, haddresses]
    have hread' : w.toWorld.read = (if w.closed then .eof else .again, w.toWorld) := by
      simp [World.read, hpipe]
    rw [hread, hread']
    cases hc : w.closed with
    | true => exact Or.inr (Or.inl ⟨by simp, by simp⟩)
    | false => exact Or.inr (Or.inr ⟨by simp, by simp⟩)
  | cons b piped =>
    rw [List.map_cons] at haddresses hpipe
    have hread' : w.toWorld.read = (.message b.value, { w.toWorld with pipe := piped.map (·.value) }) := by
      simp [World.read, hpipe]
    have hread : w.read = (.address b.address, { w with
        toWorld := { w.toWorld with pipe := piped.map (·.value) }
        addresses := piped.map (·.address) }) := by
      simp only [Memory.read, haddresses]
      rw [hread']
    rw [hread, hread']
    have hheld : w.heap.Owns (b :: held ++ piped) := howns.perm List.perm_middle
    exact Or.inl ⟨b, _, rfl, rfl, ⟨⟨piped, rfl, rfl, hheld⟩, h.made, h.content, h.accounted⟩, rfl⟩

/-- What was deleted is what was inserted. -/
def Settled (w : Memory S) (held : List (Block Message)) : Prop := w.Owns held (inserted w.log)

end Memory

/-- Requests that neither insert nor read. -/
def Quiet (q : Request) : Prop := NoInsert q ∧ q ≠ .read

@[simp] lemma inserted_append (lg lg' : Log) : inserted (lg ++ lg') = inserted lg ++ inserted lg' :=
  List.flatMap_append

lemma inserted_quiet {st : Statement} (h : NoInsert (.exec st)) (r : Except Bytes Rows) :
    inserted [(st, r)] = [] := by
  cases st with
  | insert table fields work => exact h.elim
  | _ => rfl

section Quiet

lemma exec_quiet (st : Statement) (h : NoInsert (.exec st)) : (MiniPSQL.exec st).Asks Quiet := by
  apply Method.Asks.bind (Method.Asks.ask ⟨h, by simp⟩)
  intro r
  cases r with
  | ok rows => exact Method.Asks.pure _
  | error msg => exact Method.Asks.throw _

lemma getSchema_quiet (table : Bytes) : (MiniPSQL.getSchema table).Asks Quiet :=
  (exec_quiet (.schema table) trivial).bind fun _ => Method.Asks.pure _

lemma addColumn_quiet (table name type : Bytes) : (MiniPSQL.addColumn table name type).Asks Quiet := by
  apply ((getSchema_quiet table).bind fun _ => Method.Asks.pure _).bind
  intro known
  cases known with
  | false => exact (exec_quiet (.create table name type) trivial).bind fun _ => Method.Asks.pure _
  | true => exact (exec_quiet (.alter table name type) trivial).bind fun _ => Method.Asks.pure _

lemma time_quiet : time.Asks Quiet := Method.Asks.ask ⟨trivial, by simp⟩

lemma checkField_quiet (table : Bytes) (fields : List Bytes) (e : Bytes × VarT) :
    (PSQLWriter.checkField table fields e).Asks Quiet := by
  unfold PSQLWriter.checkField
  split_ifs
  · exact Method.Asks.pure _
  · apply Method.Asks.get.bind
    intro w
    have hadd := addColumn_quiet table e.1 (columnType e.2)
    cases binarySearch firstLt (PSQLWriter.cachedSchema w table) (e.1, ([] : Bytes)) with
    | true => exact Method.Asks.pure _
    | false => exact hadd.bind fun _ => (Method.Asks.modify _).bind fun _ => Method.Asks.pure _

lemma commitIfLater_quiet : PSQLWriter.commitIfLater.Asks Quiet := by
  apply Method.Asks.get.bind
  intro w
  apply time_quiet.bind
  intro t
  split_ifs
  · apply (exec_quiet .commit trivial).bind
    intro _
    apply (exec_quiet .begin trivial).bind
    exact fun _ => time_quiet.bind fun _ => Method.Asks.modify _
  · exact Method.Asks.pure _

lemma waitIfNeeded_quiet : PSQLWriter.waitIfNeeded.Asks Quiet := by
  apply Method.Asks.get.bind
  intro w
  split_ifs
  · have hpoll : poll.Asks Quiet := Method.Asks.ask ⟨trivial, by simp⟩
    apply hpoll.bind
    intro ret
    split_ifs
    · exact Method.Asks.throw _
    · exact Method.Asks.pure _
  · exact Method.Asks.pure _

end Quiet

namespace Memory
variable {w : Memory S} {held : List (Block Message)} {done : List Message}

lemma Owns.outside (h : w.Owns held done) {q : Request} (hq : q ≠ .read) :
    (answer P S (.outside q) w).2.Owns held done := by
  have harrive := h.arrive (P := P)
  have hworld := arrive_world (P := P) w
  cases q with
  | read => exact absurd rfl hq
  | exec st => exact harrive.congr rfl (by rw [hworld]; rfl) rfl (by rw [hworld]; rfl)
  | poll => exact harrive.congr rfl (by rw [hworld]; rfl) rfl (by rw [hworld]; rfl)
  | time => exact harrive.congr rfl (by rw [hworld]; rfl) rfl (by rw [hworld]; rfl)

lemma log_arrive (w : World S) : w.arrive.log = w.log := by
  rw [w.arrive_went.log, List.append_nil]

lemma Settled.outside (h : w.Settled held) {q : Request} (hq : Quiet q) :
    (answer P S (.outside q) w).2.Settled held := by
  have howns := Owns.outside (P := P) h hq.2
  have hlog : inserted (answer P S (.outside q) w).2.log = inserted w.log := by
    change inserted (World.answer S q w.toWorld).2.log = _
    cases q with
    | read => exact absurd rfl hq.2
    | poll => exact congrArg inserted (log_arrive w.toWorld)
    | time => exact congrArg inserted (log_arrive w.toWorld)
    | exec st =>
      change inserted (w.toWorld.arrive.log ++ _) = _
      rw [inserted_append, inserted_quiet hq.1, List.append_nil, log_arrive]
  unfold Settled
  rw [hlog]
  exact howns

end Memory

namespace OnHeap
variable {w : Worker} {t : Memory S} {held : List (Block Message)}

/-- The calls go in step; where they throw, the messages in hand stay on the heap. -/
abbrev Steps {α β : Type} (P : Allocator) (m' : M β) (m : Psql.M α) (w : Worker) (t : Memory S)
    (R : β → α → Memory S → Prop) : Prop :=
  InStep (Memory.answer P S) (World.answer S) (fun w _ => w) Memory.toWorld m' m w t (fun b a _ u => R b a u)
    fun _ u => ∃ held, u.Settled held

lemma outside_steps {α : Type} {m : Psql.M α} (hm : m.Asks Quiet) (ht : t.Settled held) :
    Steps P (outside m) m w t fun b a u => b = a ∧ u.Settled held := by
  have hstep : Steps P (outside m) m w t _ := (InStep.embed (I := fun u : Memory S => u.Settled held)
    (fun q u hq hu => ⟨rfl, rfl, hu.outside hq⟩) hm ht).weaken (fun _ _ _ _ h => h) fun _ u hu => ⟨held, hu⟩
  exact hstep

lemma load_alone {done : List Message} (ht : t.Owns held done) {b : Block Message} (hb : b ∈ held) :
    (load b.address).invoke (Memory.answer P S) w t = (.ok b.value, w, t) := by
  have hload : Memory.answer P S (.load b.address) t = (some b.value, t) := ht.load hb
  unfold load
  rw [Method.invoke_bind, Method.invoke_ask, hload]
  rfl

lemma checkEntries_steps (table : Bytes) {b : Block Message} (hb : b ∈ held) (es : List (Bytes × VarT))
    (fields : List Bytes) (ht : t.Settled held) :
    Steps P (checkEntries table b.address fields es) (es.foldlM (PSQLWriter.checkField table) fields) w t
      fun fs fs' u => fs = fs' ∧ u.Settled held := by
  induction es generalizing fields w t with
  | nil => exact InStep.pure ⟨rfl, ht⟩
  | cons f es ih =>
    unfold checkEntries
    rw [List.foldlM_cons, List.foldlM_cons, bind_assoc]
    apply InStep.alone (load_alone ht hb) rfl rfl
    apply (outside_steps (checkField_quiet table fields f) ht).seq
    rintro fs _ v u ⟨rfl, hu⟩
    exact ih fs hu

lemma checkFields_steps (H : HashOrder) (table : Bytes) {work : List (Block Message)} (hwork : ∀ b ∈ work, b ∈ held)
    (ht : t.Settled held) :
    Steps P (checkFields H table (work.map (·.address)))
      (PSQLWriter.checkFields H table (work.map (·.value))) w t fun fs fs' u => fs = fs' ∧ u.Settled held := by
  unfold checkFields PSQLWriter.checkFields
  generalize ([] : List Bytes) = fields
  induction work generalizing fields w t with
  | nil => exact InStep.pure ⟨rfl, ht⟩
  | cons b work ih =>
    have hb : b ∈ held := hwork b (by simp)
    rw [List.map_cons, List.map_cons, List.flatMap_cons, List.foldlM_append, List.foldlM_cons, bind_assoc]
    apply InStep.alone (load_alone ht hb) rfl rfl
    apply (checkEntries_steps table hb (H.entries b.value) fields ht).seq
    rintro fs _ v u ⟨rfl, hu⟩
    exact ih (fun c hc => hwork c (by simp [hc])) hu fs

lemma loads_alone {work : List (Block Message)} {done : List Message} (hwork : ∀ b ∈ work, b ∈ held) (ht : t.Owns held done) :
    ((work.map (·.address)).mapM load).invoke (Memory.answer P S) w t = (.ok (work.map (·.value)), w, t) := by
  induction work with
  | nil => rfl
  | cons b work ih =>
    rw [List.map_cons, List.mapM_cons, Method.invoke_bind, load_alone ht (hwork b (by simp))]
    simp only
    rw [Method.invoke_bind, ih fun c hc => hwork c (by simp [hc])]
    rfl

lemma deletes_alone {work rest : List (Block Message)} {done : List Message} (ht : t.Owns (work ++ rest) done) :
    ∃ u, ((work.map (·.address)).forM delete).invoke (Memory.answer P S) w t = (.ok (), w, u) ∧
      u.Owns rest (done ++ work.map (·.value)) ∧ u.toWorld = t.toWorld := by
  induction work generalizing t done with
  | nil => exact ⟨t, rfl, by simpa using ht, rfl⟩
  | cons b work ih =>
    have hcons : t.Owns (b :: (work ++ rest)) done := ht
    obtain ⟨u, hu, howns, hworld⟩ := ih hcons.delete
    refine ⟨u, ?_, ?_, hworld⟩
    · change (delete b.address >>= fun _ => (work.map (·.address)).forM delete).invoke _ w t = _
      rw [Method.invoke_bind]
      exact hu
    · rw [List.map_cons, List.append_cons]
      exact howns

lemma outside_exec (st : Statement) : outside (MiniPSQL.exec st) = (do
    match ← Method.ask (HeapRequest.outside (.exec st)) with
    | .ok rows => pure (rows.takeWhile fun row => !row.isEmpty)
    | .error msg => throw (MiniPSQL.errorHead st ++ msg)) := by
  funext w
  apply congrArg (Script.ask _)
  funext r
  cases r <;> rfl

lemma insert_steps {α β : Type} (e : Bytes) (fields : List Bytes) {work rest : List (Block Message)}
    (ht : t.Settled (work ++ rest)) {f' : M β} {f : Psql.M α} {R : β → α → Memory S → Prop}
    (hf : ∀ u : Memory S, u.Settled rest → Steps P f' f w u R) :
    Steps P (do
        let _ ← outside (MiniPSQL.exec (.insert e fields (work.map (·.value))))
        (work.map (·.address)).forM delete
        f')
      (do
        let _ ← MiniPSQL.exec (.insert e fields (work.map (·.value)))
        f) w t R := by
  generalize hst : Statement.insert e fields (work.map (·.value)) = st
  have howns := Memory.Owns.outside (P := P) ht (q := .exec st) (by simp)
  have hlog : (Memory.answer P S (.outside (.exec st)) t).2.log =
      t.log ++ [(st, (World.answer S (.exec st) t.toWorld).1)] := by
    change t.toWorld.arrive.log ++ _ = _
    rw [Memory.log_arrive]
    rfl
  rw [outside_exec, bind_assoc]
  unfold MiniPSQL.exec pq
  rw [bind_assoc]
  generalize hr : (World.answer S (.exec st) t.toWorld).1 = r at hlog
  generalize hu : (Memory.answer P S (.outside (.exec st)) t).2 = u at howns hlog
  have hask : Memory.answer P S (.outside (.exec st)) t = (r, u) := Prod.ext hr hu
  have hask' : World.answer S (.exec st) t.toWorld = (r, u.toWorld) := Prod.ext hr (congrArg Memory.toWorld hu)
  apply InStep.ask hask hask' rfl
  cases r with
  | ok rows =>
    have hinserted : inserted u.log = inserted t.log ++ work.map (·.value) := by
      rw [hlog, inserted_append, ← hst]
      simp [inserted]
    obtain ⟨u', hdeletes, howns', hworld⟩ := deletes_alone (P := P) (w := w) howns
    have hsettled : u'.Settled rest := by
      unfold Memory.Settled
      rw [congrArg World.log hworld, hinserted]
      exact howns'
    change Steps P ((work.map (·.address)).forM delete >>= fun _ => f') f w u R
    exact InStep.alone hdeletes rfl hworld (hf u' hsettled)
  | error msg =>
    have hinserted : inserted u.log = inserted t.log := by
      rw [hlog, inserted_append, ← hst]
      simp [inserted]
    have hsettled : u.Settled (work ++ rest) := by
      unfold Memory.Settled
      rw [hinserted]
      exact howns
    exact ⟨rfl, work ++ rest, hsettled⟩

lemma insertMessages_steps (H : HashOrder) (e : Bytes) {work rest : List (Block Message)} (ht : t.Settled (work ++ rest)) :
    Steps P (do
        let fields ← checkFields H e (work.map (·.address))
        let work' ← (work.map (·.address)).mapM load
        let _ ← outside (MiniPSQL.exec (.insert e (H.ofSet fields) work'))
        (work.map (·.address)).forM delete
        outside PSQLWriter.commitIfLater)
      (do
        let fields ← PSQLWriter.checkFields H e (work.map (·.value))
        let _ ← MiniPSQL.exec (.insert e (H.ofSet fields) (work.map (·.value)))
        PSQLWriter.commitIfLater) w t fun _ _ u => u.Settled rest := by
  have hwork : ∀ b ∈ work, b ∈ work ++ rest := fun b hb => List.mem_append_left rest hb
  apply (checkFields_steps H e hwork ht).seq
  rintro fields _ v u ⟨rfl, hu⟩
  apply InStep.alone (loads_alone hwork hu) rfl rfl
  apply insert_steps e (H.ofSet fields) hu
  intro u' hu'
  exact (outside_steps commitIfLater_quiet hu').weaken (fun _ _ _ _ h => h.2) fun _ _ h => h

lemma processTable_steps (H : HashOrder) (e : Bytes) {work rest : List (Block Message)} (ht : t.Settled (work ++ rest)) :
    Steps P (processTable H (e, work.map (·.address))) (PSQLWriter.processTable H (e, work.map (·.value))) w t
      fun _ _ u => u.Settled rest := by
  unfold processTable PSQLWriter.processTable
  apply InStep.get_bind
  cases hk : w.schemas e with
  | some schema => exact insertMessages_steps H e ht
  | none =>
    apply (outside_steps (getSchema_quiet e) ht).seq
    rintro schema _ v u ⟨rfl, hu⟩
    apply InStep.modify_bind rfl
    exact insertMessages_steps H e hu

lemma entries_steps (H : HashOrder) (es : List (Bytes × List (Block Message))) (ht : t.Settled (es.flatMap (·.2))) :
    Steps P ((es.map fun e => (e.1, e.2.map (·.address))).forM (processTable H))
      ((es.map fun e => (e.1, e.2.map (·.value))).forM (PSQLWriter.processTable H)) w t
      fun _ _ u => u.Settled [] := by
  induction es generalizing w t with
  | nil => exact InStep.pure ht
  | cons e es ih =>
    apply (processTable_steps H e.1 ht).seq
    rintro _ _ v u hu
    exact ih hu

/-- What the worker has gathered: the messages in hand, filed by table. -/
structure Filed (gb : List (Bytes × List (Block Message))) (ga : Groups Bytes ℕ) (g : Groups Bytes Message) : Prop where
  addresses : ga.entries = gb.map fun e => (e.1, e.2.map (·.address))
  messages : g.entries = gb.map fun e => (e.1, e.2.map (·.value))

lemma Filed.push {gb : List (Bytes × List (Block Message))} {ga : Groups Bytes ℕ} {g : Groups Bytes Message}
    (h : Filed gb ga g) (k : Bytes) (b : Block Message) :
    Filed (Groups.file k b gb) (ga.push k b.address) (g.push k b.value) := by
  constructor
  · change Groups.file k b.address ga.entries = _
    rw [h.addresses]
    exact Groups.file_map (·.address) k b gb
  · change Groups.file k b.value g.entries = _
    rw [h.messages]
    exact Groups.file_map (·.value) k b gb

/-- What the two loops have gathered when they end. -/
inductive Gathered (u : Memory S) : Option (Groups Bytes ℕ) → Option (Groups Bytes Message) → Prop
  | none (hu : u.Settled []) : Gathered u none none
  | some {gb : List (Bytes × List (Block Message))} {ga : Groups Bytes ℕ} {g : Groups Bytes Message} (hfiled : Filed gb ga g)
    (hu : u.Settled (gb.flatMap (·.2))) : Gathered u (some ga) (some g)

lemma gather_steps (n : ℕ) {gb : List (Bytes × List (Block Message))} {ga : Groups Bytes ℕ} {g : Groups Bytes Message}
    (sumparms : Int32) (hfiled : Filed gb ga g) (ht : t.Settled (gb.flatMap (·.2))) :
    Steps P (gather n ga sumparms) (PSQLWriter.gather n g sumparms) w t fun r r' u => Gathered u r r' := by
  induction n generalizing gb ga g sumparms w t with
  | zero => exact InStep.pure (Gathered.some hfiled ht)
  | succ n ih =>
    unfold gather PSQLWriter.gather
    by_cases hsum : sumparms < 60000
    · rw [if_pos hsum, if_pos hsum]
      apply (outside_steps waitIfNeeded_quiet ht).seq
      rintro _ _ v u ⟨-, hu⟩
      have harrive : (u.arrive P).Owns (gb.flatMap (·.2)) (inserted u.log) := hu.arrive
      have hworld := Memory.arrive_world (P := P) u
      have hlog : (u.arrive P).log = u.log := by
        rw [hworld]
        exact Memory.log_arrive u.toWorld
      have harrive' : (u.arrive P).Settled (gb.flatMap (·.2)) := by
        unfold Memory.Settled
        rw [hlog]
        exact harrive
      have hcommit : ∀ (x : Memory S) (y : Worker), x.Settled [] → Steps P
          (outside (MiniPSQL.exec .commit) >>= fun _ => pure none) (MiniPSQL.exec .commit >>= fun _ => pure none) y x
          fun r r' u => Gathered u r r' := by
        intro x y hx
        apply (outside_steps (exec_quiet .commit trivial) hx).seq
        rintro _ _ y' x' ⟨-, hx'⟩
        exact InStep.pure (Gathered.none hx')
      have hanswer : World.answer S .read u.toWorld = (u.arrive P).toWorld.read := by
        rw [hworld]
        rfl
      rcases harrive.read with ⟨b, x, hread, hread', howns, hx⟩ | ⟨hread, hread'⟩ | ⟨hread, hread'⟩
      · apply InStep.ask hread (hanswer.trans hread') rfl
        have hheld : (b :: gb.flatMap (·.2)).Perm ((Groups.file b.value.table b gb).flatMap (·.2)) :=
          (Groups.file_perm b.value.table b gb).symm
        have hx' : x.Settled ((Groups.file b.value.table b gb).flatMap (·.2)) := by
          unfold Memory.Settled
          rw [hx, hlog]
          exact howns.perm hheld
        apply InStep.alone (load_alone howns List.mem_cons_self) rfl rfl
        apply InStep.modify_bind rfl
        exact ih _ (hfiled.push b.value.table b) hx'
      · apply InStep.ask hread (hanswer.trans hread') rfl
        cases gb with
        | nil =>
          have hga : ga.entries = [] := hfiled.addresses
          have hg : g.entries = [] := hfiled.messages
          rw [hga, hg]
          exact hcommit _ v harrive'
        | cons d gb =>
          have hga : ga.entries.isEmpty = false := by rw [hfiled.addresses]; rfl
          have hg : g.entries.isEmpty = false := by rw [hfiled.messages]; rfl
          rw [hga, hg]
          exact InStep.pure (Gathered.some hfiled harrive')
      · apply InStep.ask hread (hanswer.trans hread') rfl
        apply InStep.modify_bind rfl
        exact InStep.pure (Gathered.some hfiled harrive')
    · rw [if_neg hsum, if_neg hsum]
      exact InStep.pure (Gathered.some hfiled ht)

lemma filed_empty : Filed [] Groups.empty Groups.empty := ⟨rfl, rfl⟩

lemma batches_steps (H : HashOrder) (fuel : ℕ) (ht : t.Settled []) :
    Steps P (batches H fuel) (PSQLWriter.batches H fuel) w t fun b b' u => b = b' ∧ u.Settled [] := by
  induction fuel generalizing w t with
  | zero => exact InStep.pure ⟨rfl, ht⟩
  | succ fuel ih =>
    unfold batches PSQLWriter.batches
    apply (gather_steps 10000 0 filed_empty ht).seq
    intro r r' v u hr
    cases hr with
    | none hu => exact InStep.pure ⟨rfl, hu⟩
    | some hfiled hu =>
      simp only [hfiled.addresses, hfiled.messages]
      apply (entries_steps H _ hu).seq
      rintro _ _ v' u' hu'
      exact ih hu'

/-- The worker that has addresses in hand goes in step with the one that has messages. -/
lemma commitThread_steps (H : HashOrder) (fuel : ℕ) (ht : t.Settled []) :
    Steps P (commitThread H fuel) (PSQLWriter.commitThread H fuel) w t fun b b' u => b = b' ∧ u.Settled [] := by
  unfold commitThread PSQLWriter.commitThread
  apply (outside_steps (exec_quiet .begin trivial) ht).seq
  rintro _ _ v u ⟨-, hu⟩
  apply (outside_steps time_quiet hu).seq
  rintro c _ v' u' ⟨rfl, hu'⟩
  apply InStep.modify_bind rfl
  exact batches_steps H fuel hu'

end OnHeap

/-- A world in which nothing is on the heap. -/
def Memory.fresh (s : World S) : Memory S := { s with heap := Heap.empty, addresses := [] }

namespace PSQLWriter

lemma Fresh.settled {s : World S} (hs : Fresh s) : (Memory.fresh s).Settled [] := by
  have hnone : inserted s.log = [] := by rw [hs.log]; rfl
  unfold Memory.Settled
  refine ⟨⟨[], rfl, hs.pipe, Heap.owns_empty⟩, ?_, by simp [Memory.fresh, Heap.empty], ?_⟩
  · change 0 = s.sent.length
    rw [hs.sent]
    rfl
  · change [] = (inserted s.log).map some
    rw [hnone]
    rfl

end PSQLWriter

namespace OnHeap
open PSQLWriter (Fresh start)

/-- The worker with addresses does what the one with messages does; if it returns, it has no message in
hand. -/
lemma commitThread_refines (P : Allocator) (H : HashOrder) (fuel : ℕ) {s : World S} (hs : Fresh s) :
    let r := (commitThread H fuel).invoke (Memory.answer P S) start (Memory.fresh s)
    (r.1, r.2.1, r.2.2.toWorld) = (PSQLWriter.commitThread H fuel).invoke (World.answer S) start s ∧
      (∃ held, r.2.2.Settled held) ∧ (r.1.isOk = true → r.2.2.Settled []) := by
  have hsteps := commitThread_steps (P := P) (w := start) H fuel hs.settled
  intro r
  rcases hsteps.cases with ⟨b, b', v, u, hr, hrun, rfl, hu⟩ | ⟨x, v, u, hr, hrun, hu⟩
  · rw [show r = (.ok b, v, u) from hr]
    exact ⟨hrun.symm, ⟨[], hu⟩, fun _ => hu⟩
  · rw [show r = (.error x, v, u) from hr]
    exact ⟨hrun.symm, hu, fun h => by cases h⟩

/-- Wherever `new` puts the messages, and with any server and any waits: the worker looks at no message and
deletes none that does not live, it deletes none twice, and those that it has deleted are the messages of
the statements that were accepted. It does what a worker does that has the messages themselves in hand. -/
theorem never_dangles (P : Allocator) (H : HashOrder) {s : World S} (hs : Fresh s) (fuel : ℕ) :
    let r := (commitThread H fuel).invoke (Memory.answer P S) start (Memory.fresh s)
    (r.1, r.2.1, r.2.2.toWorld) = (PSQLWriter.commitThread H fuel).invoke (World.answer S) start s ∧
      r.2.2.heap.fault = false ∧ r.2.2.heap.freed.Nodup ∧
      r.2.2.heap.freed.map (r.2.2.sent[·]?) = (inserted r.2.2.log).map some := by
  obtain ⟨hrun, ⟨held, hsettled⟩, -⟩ := commitThread_refines P H fuel hs
  obtain ⟨piped, -, -, howns⟩ := hsettled.live
  intro r
  exact ⟨hrun, howns.fault, howns.nodup_freed, hsettled.accounted⟩

/-- A message before the first request and one before the ninth. -/
def twoVisits : World (agreeable []) := World.fresh () fun n =>
  if n = 0 then [.addValue (ascii "data") [(ascii "test", .int32 1)]]
  else if n = 8 then [.addValue (ascii "data") [(ascii "test", .int32 2)]] else []

theorem never_dangles_twoVisits :
    let r := (commitThread insertionOrder 2).invoke (Memory.answer Allocator.above (agreeable [])) start (Memory.fresh twoVisits)
    r.2.2.heap.fault = false ∧ r.2.2.heap.freed.Nodup := by
  obtain ⟨-, hfault, hnodup, -⟩ := never_dangles Allocator.above insertionOrder (s := twoVisits) (Fresh.of_fresh _ _) 2
  exact ⟨hfault, hnodup⟩

/-- The second message lives where the first one did. -/
example :
    let r := (commitThread insertionOrder 1).invoke (Memory.answer Allocator.above (agreeable [])) start (Memory.fresh twoVisits)
    r.2.2.heap.freed = [0] ∧ r.2.2.heap.live.map (fun b => (b.address, b.serial)) = [(1, 1)] := by
  decide +kernel

/-- Once the destructor has closed the pipe, a worker whose statements are all accepted returns with every
message deleted that was ever made. -/
theorem leaves_no_message (P : Allocator) (H : HashOrder) {s : World S} (hs : Fresh s)
    (hpoll : ∀ n, s.polls n ≠ -1) {c : ℕ} (hc : .close ∈ s.arrivals c) : ∃ bound, ∀ fuel > bound,
      let r := (commitThread H fuel).invoke (Memory.answer P S) start (Memory.fresh s)
      (∀ e ∈ r.2.2.log, e.2.isOk = true) → r.1 = .ok true ∧ r.2.2.heap.live = [] ∧
        r.2.2.heap.freed.Perm (List.range r.2.2.sent.length) := by
  have hclosing : PSQLWriter.Closing c s := ⟨hc, fun h => by rw [hs.now] at h; omega⟩
  refine ⟨PSQLWriter.ahead c s, fun fuel hfuel => ?_⟩
  have hend := PSQLWriter.commitThread_returns H hclosing hfuel
  obtain ⟨hrun, -, hreturns⟩ := commitThread_refines P H fuel hs
  intro r hok
  change (r.1, r.2.1, r.2.2.toWorld) = _ at hrun
  obtain ⟨b, hb, hrunof⟩ := PSQLWriter.accepted_run H fuel hs hpoll (by rw [← hrun]; exact hok)
  unfold Method.Outcome at hend
  rw [← hrun] at hb hrunof hend
  have hb' : r.1 = .ok b := hb
  simp only [hb'] at hend
  subst hend
  obtain ⟨segs, lg, last, rows, known, -, -, -, -, -, hpipe, -⟩ := hrunof
  have hsettled : r.2.2.Settled [] := hreturns (by rw [show _ = _ from hb']; rfl)
  obtain ⟨piped, -, hpiped, howns⟩ := hsettled.live
  have hnone : piped = [] := List.map_eq_nil_iff.mp (hpiped.symm.trans hpipe)
  rw [hnone] at howns
  obtain ⟨hlive, hfreed⟩ := howns.all_freed
  rw [hsettled.made] at hfreed
  exact ⟨hb, hlive, hfreed⟩

theorem leaves_no_message_twoVisits :
    let s := { twoVisits with arrivals := fun n => if n = 12 then [Event.close] else twoVisits.arrivals n }
    ∃ bound, ∀ fuel > bound,
      let r := (commitThread insertionOrder fuel).invoke (Memory.answer Allocator.above (agreeable [])) start (Memory.fresh s)
      r.1 = .ok true ∧ r.2.2.heap.live = [] := by
  intro s
  have hs : Fresh s := ⟨rfl, rfl, rfl, rfl, rfl⟩
  obtain ⟨bound, h⟩ := leaves_no_message Allocator.above insertionOrder hs (fun _ => show (0 : ℤ) ≠ -1 by decide) (c := 12)
    (by simp [s])
  refine ⟨bound, fun fuel hfuel => ?_⟩
  obtain ⟨hrun, -, -⟩ := commitThread_refines Allocator.above insertionOrder fuel hs
  have hlog := congrArg (fun r => r.2.2.log) hrun
  have haccepts := agreeable_accepts [] (PSQLWriter.commitThread insertionOrder fuel) start (s := s)
    (by simp [s, twoVisits, World.fresh])
  obtain ⟨hr, hheap, -⟩ := h fuel hfuel (by rw [show _ = _ from hlog]; exact haccepts)
  exact ⟨hr, hheap⟩

end OnHeap
end SqliteWrite.Psql
