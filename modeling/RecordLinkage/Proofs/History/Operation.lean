import RecordLinkage.Proofs.History.Orderly

/-!
# Histories of a database

Whatever is done to a database through its handle is an operation: records and match keys come and
go, records are assigned, match keys are computed anew, submissions are carried out. Each is a
transaction that either happens as a whole or leaves the tables alone. A call is an operation
together with what stands in the way of writing at that moment, and a history is a list of calls.

The statements that an assignment is made of are operations as well. The engine never gives them one
by one, and databases on which somebody does so are not `Reachable`.
-/

namespace RecordLinkage

open Work

/-- Something that is done to a database. -/
inductive Operation where
  | insertMatchKey (k : MatchKey)
  | updateMatchKey (k : MatchKey)
  | deleteMatchKey (id : String)
  | clear (config : String)
  | storeRecord (key : RecordKey) (payload : Json)
  | deleteRecord (key : RecordKey) (now : Datestamp)
  | deleteSource (source : SourceId) (now : Datestamp)
  | assign (now : Datestamp) (record : RecordId) (config : String) (values : List String)
  | rebuild (handle : Handle) (config : String) (limit : Nat) (now : Datestamp)
  | ingest (ingester : Ingester) (now : Datestamp) (submission : Submission)
  | start (now : Datestamp) (config : String)
  | advance (clusters : List ClusterId) (now : Datestamp)
  | merge (config : String) (winner : ClusterId) (losers : List ClusterId)
  | insertValue (config : String) (cluster : ClusterId) (value : String)
  | setMember (record : RecordId) (config : String) (cluster : ClusterId)

namespace Operation

/-- Work whose answer nobody looks at. -/
def quietly {α : Type} (w : Work α) : Work Unit := do let _ ← w

/-- What an operation does. Values are assigned as a set. -/
def work (access : Access) : Operation → Work Unit
  | insertMatchKey k => transaction access (statement (Tables.insertMatchKey k))
  | updateMatchKey k => transaction access (quietly (update (·.updateMatchKey k)))
  | deleteMatchKey id => transaction access (quietly (update (·.deleteMatchKey id)))
  | clear config => transaction access (change (·.clear config))
  | storeRecord key payload => transaction access (quietly (Ingester.enroll key payload))
  | deleteRecord key now => transaction access (quietly (update (·.deleteRecord key now)))
  | deleteSource source now => transaction access (quietly (update (·.deleteSource source now)))
  | assign now record config values =>
    transaction access (quietly (Clustering.assign now record config (Sorted.ofList values)))
  | rebuild handle config limit now =>
    quietly (Clustering.rebuild access handle config limit now)
  | ingest i now s => quietly ({ i with access }.ingest now s)
  | start now config => transaction access (quietly (Clustering.start now config))
  | advance clusters now => transaction access (change (·.advance clusters now))
  | merge config winner losers => transaction access (change (·.merge config winner losers))
  | insertValue config cluster value =>
    transaction access (statement (Tables.insertValue config cluster value))
  | setMember record config cluster =>
    transaction access (statement (Tables.setMember record config cluster))

/-- An operation does not write owners or members of a match key, except that records come and
go. -/
def Avoids (config : String) : Operation → Prop
  | deleteMatchKey c | clear c | assign _ _ c _ | rebuild _ c _ _ | start _ c | merge c _ _
  | insertValue c _ _ | setMember _ c _ => c ≠ config
  | ingest i _ _ => config ∉ i.matchKeys
  | _ => True

/-- An operation that the engine offers. -/
def IsEngine : Operation → Prop
  | start _ _ | advance _ _ | merge _ _ _ | insertValue _ _ _ | setMember _ _ _ => False
  | _ => True

/-- The time that an operation reads from the clock. -/
def reading? : Operation → Option Datestamp
  | deleteRecord _ now | deleteSource _ now | assign now _ _ _ | rebuild _ _ _ now
  | ingest _ now _ | start now _ | advance _ now => some now
  | _ => none

end Operation

/-- An operation, with what stands in the way of writing. -/
structure Call where
  access : Access
  op : Operation

/-- What has become of the world after a call. -/
def Call.perform (c : Call) (s : World) : World := ((c.op.work c.access).go s).2

/-- Calls one after the other. -/
def run (s : World) (calls : List Call) : World := calls.foldl (fun s c ↦ c.perform s) s

@[simp] theorem run_nil_calls (s : World) : run s [] = s := rfl

theorem run_cons_call (s : World) (c : Call) (rest : List Call) :
    run s (c :: rest) = run (c.perform s) rest := rfl

/-- The worlds that the engine leads to from empty tables, whatever the clock says, as long as it
says a 64-bit number. -/
def Reachable (s : World) : Prop :=
  ∃ s₀ calls, s₀.tables = Tables.empty ∧ s = run s₀ calls ∧
    ∀ c ∈ calls, c.op.IsEngine ∧ ∀ now ∈ c.op.reading?, now < Datestamp.limit

/-! ## From pieces of work to calls -/

namespace Operation

variable {α : Type} {w : Work α} {R : World → World → Prop}

theorem snd_go_quietly (w : Work α) (s : World) : ((quietly w).go s).2 = (w.go s).2 := by
  rw [quietly, go_bind]
  rcases w.go s with ⟨f | a, s'⟩ <;> rfl

theorem achieves_quietly (hR : Lasting R) (h : Achieves R w) : Achieves R (quietly w) :=
  .bind hR h fun _ ↦ (Respects.pure hR ()).achieves

theorem respects_quietly (hR : Lasting R) (h : Respects R w) : Respects R (quietly w) :=
  .bind hR h fun _ ↦ .pure hR ()

/-- What the successful runs of a piece of work achieve, it respects as a transaction. -/
theorem respects_transaction_quietly (hR : Lasting R) (h : Achieves R w) (hgrows : Respects Grows w)
    (access : Access) : Respects R (transaction access (quietly w)) :=
  (achieves_quietly hR h).transaction hR (respects_quietly Lasting.grows hgrows) access

/-- **What the pieces of work on records achieve, the operations that read the clock respect.** They
assign records under match keys that they do not avoid, and store and delete records. -/
theorem respects_timed (hR : Lasting R) {op : Operation} {now : Datestamp} (hop : op.IsEngine)
    (hreading : op.reading? = some now)
    (hassign : ∀ c, ¬op.Avoids c → ∀ r values, Achieves R (Clustering.assign now r c values))
    (henroll : ∀ key payload, Achieves R (Ingester.enroll key payload))
    (hdelete : ∀ {α : Type} {f : Tables → α × Tables} (fits : RecordRow → Bool),
      (∀ t, (f t).2 = (t.deleteRecords fits now).2) → Achieves R (update f))
    (access : Access) : Respects R (op.work access) := by
  cases op with
  | deleteRecord key now' =>
    obtain rfl := Option.some.inj hreading
    exact respects_transaction_quietly hR (hdelete _ fun t ↦ rfl) (grows_statement _) access
  | deleteSource source now' =>
    obtain rfl := Option.some.inj hreading
    exact respects_transaction_quietly hR (hdelete _ fun t ↦ rfl) (grows_statement _) access
  | assign now' r c values =>
    obtain rfl := Option.some.inj hreading
    exact respects_transaction_quietly hR (hassign c (fun h ↦ h rfl) r _)
      (Clustering.assign_grows _ r c _) access
  | rebuild handle c limit now' =>
    obtain rfl := Option.some.inj hreading
    have hassign' := hassign c fun h ↦ h rfl
    exact respects_quietly hR (Clustering.respects_rebuild hR hassign' access handle limit)
  | ingest i now' s =>
    obtain rfl := Option.some.inj hreading
    refine respects_quietly hR (Ingester.respects_ingest hR (fun k hk r values ↦ ?_) ?_ ?_ s)
    · exact hassign k.1.id (fun h ↦ h (List.mem_map_of_mem hk)) r values
    · exact fun localId payload ↦ henroll _ payload
    · refine fun localId ↦ .bind hR ?_ fun _ ↦ (Respects.pure hR _).achieves
      exact hdelete _ fun t ↦ rfl
  | insertMatchKey | updateMatchKey | deleteMatchKey | clear | storeRecord =>
    exact nomatch hreading
  | start | advance | merge | insertValue | setMember => exact hop.elim

end Operation

/-! ## A small history

Two records have nothing in common, until one of them is assigned again with a value of the other.
In between a third one comes and goes. -/

namespace Sample

/-- The values are the payload itself, a list of strings. -/
def isbn : MatchKey := ⟨"isbn", "jsonpath", .object [("expr", .string "$")], "ingest"⟩

def library : SourceId := ⟨"A", by decide, by decide⟩

def keyOf (localId : String) : RecordKey := ⟨localId, library, 1⟩

theorem accepts_t : TenantId.accepts "t" = true := by decide

/-- Nothing is stored, and no identifier has been handed out. -/
def blank : World := ⟨.empty, ⟨0⟩, .empty⟩

def bridge : List Call :=
  [⟨.free, .insertMatchKey isbn⟩,
    ⟨.free, .storeRecord (keyOf "a") .null⟩,
    ⟨.free, .storeRecord (keyOf "b") .null⟩,
    ⟨.free, .assign 5 ⟨Uuid.ofNat 0⟩ "isbn" ["x", "y"]⟩,
    ⟨.free, .assign 5 ⟨Uuid.ofNat 1⟩ "isbn" ["z"]⟩,
    ⟨.free, .storeRecord (keyOf "c") .null⟩,
    ⟨.free, .deleteRecord (keyOf "c") 5⟩,
    ⟨.free, .assign 6 ⟨Uuid.ofNat 1⟩ "isbn" ["z", "y"]⟩]

theorem reachable_bridge : Reachable (run blank bridge) := by
  refine ⟨blank, bridge, rfl, rfl, ?_⟩
  simp [bridge, Operation.IsEngine, Operation.reading?, Datestamp.limit]

end Sample

end RecordLinkage
