/-
# The store of the gateway is the one table

The tasks of the gateway keep typed records: sessions, operations, idempotency records and
API keys, each kind in a table of its own.  A `Spelling` says how each record is written as a
row of the one SQL table.  Whatever the spelling, every write of the tasks is the run of a few
SQL writes, and the two levels stay in step over every run of the system, crashes included
(`persists`).  What `Store.sessions` selects by the text of the state is the list of
the records that are not terminal.
-/

import MorpheusGateway.Records
import MorpheusGateway.Protocol.Runs

namespace MorpheusGateway

/-- The text of a state. -/
def RowState.text : RowState → String
  | opening => "opening"
  | openUnknown => "open_unknown"
  | opened => "open"
  | quarantined => "quarantined"
  | orphaned => "orphaned"
  | draining => "draining"
  | closing => "closing"
  | closePending => "close_pending"
  | closed => "closed"
  | failed => "failed"

/-- The text of a state. -/
def OpState.text : OpState → String
  | submitting => "submitting"
  | uncertain => "uncertain"
  | pending => "pending"
  | succeeded => "succeeded"
  | failed => "failed"
  | queued => "queued"
  | draining => "draining"
  | restarting => "restarting"
  | interrupted => "interrupted"

/-- The text of a state. -/
def AttemptState.text : AttemptState → String
  | started => "started"
  | completed => "completed"
  | interrupted => "interrupted"

/-- How the records are written as rows: an ID and data of which the statements extract what
the record says. -/
structure Spelling (κ δ : Type) (f : Fields δ) where
  session : Row → δ
  operation : Operation → δ
  attempt : Attempt → δ
  apiKey : ApiKey → δ
  sessionId : RowId → κ
  operationId : ℕ → κ
  attemptId : String × String → κ
  apiKeyId : String → κ
  sessionId_inj : Function.Injective sessionId
  operationId_inj : Function.Injective operationId
  attemptId_inj : Function.Injective attemptId
  apiKeyId_inj : Function.Injective apiKeyId
  session_state : ∀ r, f.state (session r) = some r.state.text
  session_createdAt : ∀ r, f.createdAt (session r) = some r.createdAt
  operation_state : ∀ o, f.state (operation o) = some o.state.text
  operation_createdAt : ∀ o, f.createdAt (operation o) = some o.createdAt
  attempt_state : ∀ a, f.state (attempt a) = some a.state.text
  attempt_createdAt : ∀ a, f.createdAt (attempt a) = some a.createdAt

/-! ### Tables under another spelling -/

section Spelled

variable {α κ κ' β : Type} [DecidableEq κ] [DecidableEq κ'] {key : α → κ'} {name : κ' → κ}
  {data : α → β} {T : Table (Prod.fst : κ × β → κ)} {t : Table key}

/-- The rows of the table are those of the other, spelled. -/
def Table.Spells (name : κ' → κ) (data : α → β) (T : Table (Prod.fst : κ × β → κ))
    (t : Table key) : Prop := T.rows = t.rows.map fun v => (name (key v), data v)

/-- A record that is written is spelled. -/
theorem Table.Spells.put (inj : Function.Injective name) (h : T.Spells name data t) (v : α) :
    (T.put (name (key v), data v)).Spells name data (t.put v) := by
  have keys : T.rows.map Prod.fst = (t.rows.map key).map name := by
    rw [h, List.map_map, List.map_map]
    rfl
  have there : name (key v) ∈ T.rows.map Prod.fst ↔ key v ∈ t.rows.map key := by
    rw [keys]
    exact List.mem_map_of_injective inj
  show Table.putRows Prod.fst (name (key v), data v) T.rows = (Table.putRows key v t.rows).map _
  unfold Table.putRows
  by_cases hk : key v ∈ t.rows.map key
  · rw [if_pos (there.2 hk), if_pos hk, h, List.map_map, List.map_map]
    refine List.map_congr_left fun r _ => ?_
    by_cases hr : key r = key v
    · simp [hr]
    · simp [hr, inj.ne hr]
  · rw [if_neg fun hm => hk (there.1 hm), if_neg hk, h]
    rfl

omit [DecidableEq κ] [DecidableEq κ'] in

/-- So is a deletion. -/
theorem Table.Spells.filter (h : T.Spells name data t) {test : κ × β → Bool} {keep : α → Bool}
    (same : ∀ v, test (name (key v), data v) = keep v) :
    (T.filter test).Spells name data (t.filter keep) := by
  show T.rows.filter test = (t.rows.filter keep).map _
  rw [h, List.filter_map]
  exact congrArg _ (List.filter_congr fun v _ => same v)

/-- So is what is found. -/
theorem Table.Spells.get (inj : Function.Injective name) (h : T.Spells name data t) (k : κ') :
    (T.get (name k)).map Prod.snd = (t.get k).map data := by
  show (T.rows.find? _).map _ = (t.rows.find? _).map _
  rw [h, List.find?_map, Option.map_map]
  have same : (fun p : κ × β => decide (p.1 = name k)) ∘ (fun v => (name (key v), data v)) =
      fun v => decide (key v = k) := by
    funext v
    simp [inj.eq_iff]
  rw [same]
  rfl

end Spelled

/-! ### The two levels -/

section Levels

variable {κ δ : Type} [DecidableEq κ] {f : Fields δ} (S : Spelling κ δ f)

/-- The SQL table has the records of the store as its rows. -/
structure Holds (r : Records κ δ) (st : Store) : Prop where
  sessions : (r.newest .session).Spells S.sessionId S.session st.sessions.toTable
  operations : (r.newest .operation).Spells S.operationId S.operation st.operations
  attempts : (r.newest .request).Spells S.attemptId S.attempt st.attempts
  keys : (r.newest .key).Spells S.apiKeyId S.apiKey st.keys

/-- The SQL writes of an event on the records. -/
def sqlWrites (s : World) : Event → List (Records.Statement κ δ)
  | .put _ row => [.put .session (S.sessionId row.id) (S.session row)]
  | .putOperation _ op => [.put .operation (S.operationId op.id) (S.operation op)]
  | .prune => [.prune s.now s.now]
  | .key k => [.put .key (S.apiKeyId k.token) (S.apiKey k)]
  | .attempt a => [.put .request (S.attemptId a.id) (S.attempt a)]
  | .interruptAttempts => (s.store.attempts.rows.filter fun a => a.state = .started).map fun a =>
      .put .request (S.attemptId a.id) (S.attempt { a with state := .interrupted })
  | _ => []

/-- The SQL writes of a log entry. -/
def itemWrites (s : World) : LogItem → List (Records.Statement κ δ)
  | .task _ (.emit e) => sqlWrites S s e
  | _ => []

variable {S}

/-- A write leaves the tables of other kinds. -/
theorem newest_put_of_ne {r : Records κ δ} {kind kind' : RecordKind} (h : kind' ≠ kind) (id : κ)
    (value : δ) : (r.put kind id value).newest kind' = r.newest kind' := by
  rw [Records.newest_put, if_neg h]

/-- It puts the record in front of its own. -/
theorem newest_put_self (r : Records κ δ) (kind : RecordKind) (id : κ) (value : δ) :
    (r.put kind id value).newest kind = (r.newest kind).put (id, value) := by
  rw [Records.newest_put, if_pos rfl]

/-- The texts of the terminal states. -/
theorem terminal_text (state : RowState) :
    (decide (state.text ∈ ["closed", "failed"])) = state.terminal := by
  cases state
  all_goals decide

omit [DecidableEq κ] in
/-- `Store.prune` deletes the rows of the records that the tasks drop. -/
theorem Holds.prune {r : Records κ δ} {s : World} (h : Holds S r s.store) :
    Holds S (r.prune f s.now s.now) s.prune.store where
  sessions := by
    rw [Records.newest_prune]
    refine h.sessions.filter fun row => ?_
    show (!(Option.any _ (f.state (S.session row)) && Option.any _ (f.createdAt (S.session row)))) = _
    rw [S.session_state, S.session_createdAt]
    show (!(decide (row.state.text ∈ ["closed", "failed"]) && _)) = _
    rw [terminal_text]
    rfl
  operations := by
    rw [Records.newest_prune]
    refine h.operations.filter fun op => ?_
    show (!(Option.any _ (f.state (S.operation op)) && Option.any _ (f.createdAt (S.operation op)))) = _
    rw [S.operation_state, S.operation_createdAt]
    have same : (decide (op.state.text ∈ ["succeeded", "failed", "completed", "interrupted"])) =
        (op.state = .succeeded || op.state = .failed || op.state = .interrupted) := by
      cases op.state
      all_goals decide
    show (!(decide (op.state.text ∈ _) && _)) = _
    rw [same]
    rfl
  attempts := by
    rw [Records.newest_prune]
    refine h.attempts.filter fun a => ?_
    show (!(Option.any _ (f.state (S.attempt a)) && Option.any _ (f.createdAt (S.attempt a)))) = _
    rw [S.attempt_state, S.attempt_createdAt]
    have same : (decide (a.state.text ∈ ["succeeded", "failed", "completed", "interrupted"])) =
        decide (a.state ≠ .started) := by
      cases a.state
      all_goals decide
    show (!(decide (a.state.text ∈ _) && _)) = _
    rw [same]
    rfl
  keys := by
    rw [Records.newest_prune]
    show ((r.newest .key).rows.filter fun _ => true) = _
    rw [List.filter_true]
    exact h.keys

/-- A session record is stored as it is in the table. -/
theorem Holds.putSession {r : Records κ δ} {st st' : Store} (h : Holds S r st) {row : Row}
    (hs : st'.sessions = st.sessions.put row) (ho : st'.operations = st.operations)
    (ha : st'.attempts = st.attempts) (hk : st'.keys = st.keys) :
    Holds S (r.put .session (S.sessionId row.id) (S.session row)) st' where
  sessions := by
    rw [newest_put_self, hs]
    exact h.sessions.put S.sessionId_inj row
  operations := by
    rw [newest_put_of_ne (by decide), ho]
    exact h.operations
  attempts := by
    rw [newest_put_of_ne (by decide), ha]
    exact h.attempts
  keys := by
    rw [newest_put_of_ne (by decide), hk]
    exact h.keys

/-- So is an operation record. -/
theorem Holds.putOperation {r : Records κ δ} {st st' : Store} (h : Holds S r st) {op : Operation}
    (hs : st'.sessions = st.sessions) (ho : st'.operations = st.operations.put op)
    (ha : st'.attempts = st.attempts) (hk : st'.keys = st.keys) :
    Holds S (r.put .operation (S.operationId op.id) (S.operation op)) st' where
  sessions := by
    rw [newest_put_of_ne (by decide), hs]
    exact h.sessions
  operations := by
    rw [newest_put_self, ho]
    exact h.operations.put S.operationId_inj op
  attempts := by
    rw [newest_put_of_ne (by decide), ha]
    exact h.attempts
  keys := by
    rw [newest_put_of_ne (by decide), hk]
    exact h.keys

/-- So is an idempotency record. -/
theorem Holds.putAttempt {r : Records κ δ} {st st' : Store} (h : Holds S r st) {a : Attempt}
    (hs : st'.sessions = st.sessions) (ho : st'.operations = st.operations)
    (ha : st'.attempts = st.attempts.put a) (hk : st'.keys = st.keys) :
    Holds S (r.put .request (S.attemptId a.id) (S.attempt a)) st' where
  sessions := by
    rw [newest_put_of_ne (by decide), hs]
    exact h.sessions
  operations := by
    rw [newest_put_of_ne (by decide), ho]
    exact h.operations
  attempts := by
    rw [newest_put_self, ha]
    exact h.attempts.put S.attemptId_inj a
  keys := by
    rw [newest_put_of_ne (by decide), hk]
    exact h.keys

/-- So is a key. -/
theorem Holds.putKey {r : Records κ δ} {st st' : Store} (h : Holds S r st) {k : ApiKey}
    (hs : st'.sessions = st.sessions) (ho : st'.operations = st.operations)
    (ha : st'.attempts = st.attempts) (hk : st'.keys = st.keys.put k) :
    Holds S (r.put .key (S.apiKeyId k.token) (S.apiKey k)) st' where
  sessions := by
    rw [newest_put_of_ne (by decide), hs]
    exact h.sessions
  operations := by
    rw [newest_put_of_ne (by decide), ho]
    exact h.operations
  attempts := by
    rw [newest_put_of_ne (by decide), ha]
    exact h.attempts
  keys := by
    rw [newest_put_self, hk]
    exact h.keys.put S.apiKeyId_inj k

omit [DecidableEq κ] in
/-- A store with the same records. -/
theorem Holds.same {r : Records κ δ} {st st' : Store} (h : Holds S r st)
    (hs : st'.sessions = st.sessions) (ho : st'.operations = st.operations)
    (ha : st'.attempts = st.attempts) (hk : st'.keys = st.keys) : Holds S r st' where
  sessions := hs ▸ h.sessions
  operations := ho ▸ h.operations
  attempts := ha ▸ h.attempts
  keys := hk ▸ h.keys

/-- So are the attempts that a start interrupts, by induction on the list. -/
theorem Holds.interrupt (l : List Attempt) : ∀ {r : Records κ δ} {st : Store},
    Holds S r st → ∀ st' : Store, st'.sessions = st.sessions → st'.operations = st.operations →
      st'.keys = st.keys →
      st'.attempts = l.foldl (fun t a => t.put { a with state := .interrupted }) st.attempts →
      Holds S (r.run f (l.map fun a =>
        .put .request (S.attemptId a.id) (S.attempt { a with state := .interrupted }))) st' := by
  induction l with
  | nil =>
    intro r st h st' hs ho hk ha
    exact h.same hs ho ha hk
  | cons a l ih =>
    intro r st h st' hs ho hk ha
    have one : Holds S (r.put .request (S.attemptId a.id) (S.attempt { a with state := .interrupted }))
        { st with attempts := st.attempts.put { a with state := .interrupted } } :=
      @Holds.putAttempt _ _ _ _ S _ _ _ h { a with state := .interrupted } rfl rfl rfl rfl
    exact ih one st' hs ho hk ha

/-- **Every event of the tasks is its SQL writes.** -/
theorem Holds.apply {r : Records κ δ} {s : World} (h : Holds S r s.store) (t : ℕ) (e : Event) :
    Holds S (r.run f (sqlWrites S s e)) (s.apply t e).store := by
  cases e with
  | put w row => exact h.putSession rfl rfl rfl rfl
  | putOperation w op => exact h.putOperation rfl rfl rfl rfl
  | prune => exact h.prune
  | key k => exact h.putKey rfl rfl rfl rfl
  | attempt a => exact h.putAttempt rfl rfl rfl rfl
  | interruptAttempts => exact .interrupt _ h _ rfl rfl rfl rfl
  | _ => exact h.same rfl rfl rfl rfl

/-- **The one table follows every run**: it holds the records of a new installation when it
is empty, and after any step of the system, a crash included, it holds the records again once
the SQL writes of that step are made. -/
theorem persists (cfg : Config) (S : Spelling κ δ f) :
    (∀ s, Installed s → Holds S (Records.empty : Records κ δ) s.store) ∧
    ∀ m x m', (gateway cfg).Step m x m' → ∀ r : Records κ δ, Holds S r m.state.store →
      Holds S (r.run f (x.elim [] (itemWrites S m.state))) m'.state.store ∧
      (∀ id, r.get .session (S.sessionId id) = (m.state.row? id).map S.session) ∧
      r.sessions f = m.state.sessions.map S.session := by
  refine ⟨?_, fun m x m' step r h => ⟨?_, fun id => ?_, ?_⟩⟩
  · rintro _ ⟨now, monotonic, rfl⟩
    exact ⟨rfl, rfl, rfl, rfl⟩
  · cases step with
    | @start _ s' _ _ t p fresh may =>
      have same : s'.store = _ := store_begin (t := t) may
      exact h.same (congrArg Store.sessions same) (congrArg Store.operations same)
        (congrArg Store.attempts same) (congrArg Store.keys same)
    | emit => exact h.apply _ _
    | _ => exact h
  · rw [Records.get_eq]
    exact h.sessions.get S.sessionId_inj id
  · rw [Records.sessions_eq]
    show (List.map _ (r.newest .session).rows).filter _ = _
    rw [h.sessions, List.map_map, List.filter_map]
    refine congrArg _ (List.filter_congr fun row _ => ?_)
    show Option.any _ (f.state (S.session row)) = _
    rw [S.session_state, ← terminal_text]
    exact decide_not

end Levels

/-- The fields of records that are kept as they are. -/
def Fields.plain : Fields (Row ⊕ Operation ⊕ Attempt ⊕ ApiKey) where
  state := Sum.elim (fun r => some r.state.text) (Sum.elim (fun o => some o.state.text)
    (Sum.elim (fun a => some a.state.text) fun _ => none))
  createdAt := Sum.elim (fun r => some r.createdAt) (Sum.elim (fun o => some o.createdAt)
    (Sum.elim (fun a => some a.createdAt) fun _ => none))
  expires _ := none

/-- The spelling that keeps the records as they are. -/
def Spelling.plain :
    Spelling (RowId ⊕ ℕ ⊕ (String × String) ⊕ String) (Row ⊕ Operation ⊕ Attempt ⊕ ApiKey) .plain where
  session := .inl
  operation o := .inr (.inl o)
  attempt a := .inr (.inr (.inl a))
  apiKey k := .inr (.inr (.inr k))
  sessionId := .inl
  operationId n := .inr (.inl n)
  attemptId i := .inr (.inr (.inl i))
  apiKeyId k := .inr (.inr (.inr k))
  sessionId_inj := Sum.inl_injective
  operationId_inj := Sum.inr_injective.comp Sum.inl_injective
  attemptId_inj := Sum.inr_injective.comp (Sum.inr_injective.comp Sum.inl_injective)
  apiKeyId_inj := Sum.inr_injective.comp (Sum.inr_injective.comp Sum.inr_injective)
  session_state _ := rfl
  session_createdAt _ := rfl
  operation_state _ := rfl
  operation_createdAt _ := rfl
  attempt_state _ := rfl
  attempt_createdAt _ := rfl

example : Holds .plain .empty {} := ⟨rfl, rfl, rfl, rfl⟩

end MorpheusGateway
