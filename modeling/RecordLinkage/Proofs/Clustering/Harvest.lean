import RecordLinkage.Proofs.Clustering.Datestamps

/-!
# Harvesting by datestamp

A harvester lists the clusters of a match key by datestamp, remembers the last row that it has seen,
and later continues behind it. What it sees then is exactly what is marked behind that row: later,
or at the same datestamp under a greater identifier.

Whether a change is seen is thus a question of the clock. Marks only ever move forward, and a change
leaves a mark that is not before the time of the change. So a change at a later time than the last
datestamp that was harvested is always seen, and at that very time all clusters are that were not
there before.

## What is missed

A datestamp may be ahead of the clock, because it grows by one whenever its cluster is touched while
the clock stands still. When that is the one where the harvest ended, a cluster that starts
afterwards is marked with the time of the clock, behind the harvester's back. The same happens at
one and the same time to a cluster that is older than the last one harvested.
-/

namespace RecordLinkage

open Clustering Work Tables

variable {now low : Datestamp} {s s' : World} {t : Tables} {c : String} {x : ClusterId}

/-! ## The order of the listing -/

namespace ClusterMark

variable {a b m : ClusterMark}

theorem before_iff : a.before b = true ↔
    a.datestamp < b.datestamp ∨ a.datestamp = b.datestamp ∧ a.cluster < b.cluster := by
  rw [before]
  by_cases h : a.datestamp = b.datestamp
  · simp [h]
  · simp [h]

/-- Behind a row is what comes after it. -/
theorem isListed_iff : isListed a.datestamp (some a.cluster) m = true ↔ a.before m = true := by
  rw [before_iff]
  simp only [isListed, Bool.or_eq_true, Bool.and_eq_true, decide_eq_true_eq]
  rw [eq_comm (a := m.datestamp)]

/-- The datestamp of a mark is a 64-bit number. -/
def Legible (m : ClusterMark) : Prop := m.datestamp < Datestamp.limit

end ClusterMark

/-! ## What a listing shows -/

namespace Tables

variable {since : Datestamp} {place : Option ClusterId} {n : Nat} {rows marks : List ClusterMark}

/-- Rows are read as they are, or not at all if one of them cannot be read. -/
theorem mapM_read_cases (marks : List ClusterMark) :
    (∀ m ∈ marks, m.Legible) ∧ marks.mapM ClusterMark.read = .ok marks ∨
      (¬∀ m ∈ marks, m.Legible) ∧ marks.mapM ClusterMark.read = .error .invalidColumn := by
  induction marks with
  | nil => exact Or.inl ⟨by simp, rfl⟩
  | cons m rest ih =>
    rw [List.forall_mem_cons, List.mapM_cons, ClusterMark.read, ClusterMark.Legible]
    by_cases hm : m.datestamp < Datestamp.limit
    · rw [if_pos hm]
      rcases ih with ⟨hall, hrest⟩ | ⟨hsome, hrest⟩
      · exact Or.inl ⟨⟨hm, hall⟩, by rw [hrest]; rfl⟩
      · exact Or.inr ⟨fun h ↦ hsome h.2, by rw [hrest]; rfl⟩
    · rw [if_neg hm]
      exact Or.inr ⟨fun h ↦ hm h.1, rfl⟩

private theorem mapM_mark_ok_iff : marks.mapM ClusterMark.read = .ok rows ↔
    rows = marks ∧ ∀ m ∈ marks, m.datestamp < Datestamp.limit := by
  rcases mapM_read_cases marks with ⟨hall, hread⟩ | ⟨hsome, hread⟩
  · rw [hread, Except.ok.injEq, eq_comm]
    exact (and_iff_left hall).symm
  · rw [hread]
    exact iff_of_false (fun h ↦ nomatch h) fun h ↦ hsome h.2

theorem mem_of_mem_changedSince (hok : t.changedSince c since place n = .ok rows) {m : ClusterMark}
    (hm : m ∈ rows) : m ∈ t.marks := by
  obtain ⟨rfl, -⟩ := mapM_mark_ok_iff.mp hok
  have hm' := Sorted.mem_sortBy.mp (List.mem_of_mem_take hm)
  exact (List.mem_filter.mp hm').1

/-- A listing with room for all marks shows those of the match key that are behind the place, as
long as all of these can be read. -/
theorem changedSince_ok_iff (hn : t.marks.length ≤ n) :
    t.changedSince c since place n = .ok rows ↔
      rows = Sorted.sortBy ClusterMark.before
        (t.marks.filter fun m ↦ m.config = c && isListed since place m) ∧
      ∀ m ∈ t.marks, m.config = c → isListed since place m = true →
        m.datestamp < Datestamp.limit := by
  have hfits : (Sorted.sortBy ClusterMark.before
      (t.marks.filter fun m ↦ m.config = c && isListed since place m)).length ≤ n := by
    rw [(Sorted.sortBy_perm _).length_eq]
    exact (List.length_filter_le _ _).trans hn
  rw [changedSince, mapM_mark_ok_iff, List.take_of_length_le hfits]
  simp only [Sorted.mem_sortBy, List.mem_filter, Bool.and_eq_true, decide_eq_true_eq, and_imp]

theorem exists_changedSince (since : Datestamp) (place : Option ClusterId)
    (hstamps : ∀ m ∈ t.marks, m.config = c → m.datestamp < Datestamp.limit)
    (hn : t.marks.length ≤ n) : ∃ rows, t.changedSince c since place n = .ok rows ∧
      ∀ m, m ∈ rows ↔ m ∈ t.marks ∧ m.config = c ∧ isListed since place m = true := by
  refine ⟨_, (changedSince_ok_iff hn).mpr ⟨rfl, fun m hm hc _ ↦ hstamps m hm hc⟩, fun m ↦ ?_⟩
  simp only [Sorted.mem_sortBy, List.mem_filter, Bool.and_eq_true, decide_eq_true_eq]

/-! ## Whole runs -/

theorem Renewed.anti (h : Renewed now t t' c x) (hle : low ≤ now) : Renewed low t t' c x := by
  obtain ⟨m', hm', hx, hc, hnow, hold⟩ := h
  refine ⟨m', hm', hx, hc, hle.trans hnow, fun m hm hmx ↦ ?_⟩
  exact (max_le_max le_rfl hle).trans (hold m hm hmx)

theorem Forward.anti (h : Forward now t t') (hle : low ≤ now) : Forward low t t' where
  kept := h.kept
  started c x hx := (h.started c x hx).imp_right fun hr ↦ hr.anti hle
  renewed c x hd := (h.renewed c x hd).anti hle

end Tables

theorem Advances.anti (h : Advances now s s') (hle : low ≤ now) : Advances low s s' := by
  refine ⟨h.1, fun hs ↦ ?_⟩
  obtain ⟨hs', hp, hm⟩ := h.2 hs
  exact ⟨hs', hp.anti hle, hm⟩

/-- A call of the engine that reads the clock. -/
def Call.Timed (call : Call) : Prop :=
  call.op.IsEngine ∧ ∃ now, call.op.reading? = some now ∧ now < Datestamp.limit

theorem Call.Timed.advances {call : Call} (hcall : call.Timed)
    (hreading : call.op.reading? = some now) (s : World) : Advances now s (call.perform s) := by
  obtain ⟨hop, now', hreading', hnow⟩ := hcall
  obtain rfl := Option.some.inj (hreading.symm.trans hreading')
  exact respects_advances hop hreading hnow call.access s

/-- A run moves the tables forward, from some time on. -/
theorem exists_advances_run {calls : List Call} (hcalls : ∀ call ∈ calls, call.Timed) (s : World) :
    ∃ low, Advances low s (run s calls) := by
  induction calls generalizing s with
  | nil => exact ⟨0, (lasting_advances 0).refl s⟩
  | cons call rest ih =>
    have hcall := hcalls call List.mem_cons_self
    obtain ⟨-, now, hreading, -⟩ := id hcall
    obtain ⟨low, hrest⟩ := ih (fun call hc ↦ hcalls call (List.mem_cons_of_mem _ hc))
      (call.perform s)
    refine ⟨min now low, (lasting_advances _).trans ?_ (hrest.anti (min_le_right _ _))⟩
    exact (hcall.advances hreading s).anti (min_le_left _ _)

/-- A cluster is marked for the first time, or has other members or other values than before. -/
def Tables.Affected (t t' : Tables) (c : String) (x : ClusterId) : Prop :=
  ¬t.Marked c x ∧ t'.Marked c x ∨ Differs t t' c x

/-- At some time of a run a call affects a cluster. -/
def AffectedAt (now : Datestamp) (s : World) (calls : List Call) (c : String) (x : ClusterId) :
    Prop :=
  ∃ earlier call later, calls = earlier ++ call :: later ∧ call.op.reading? = some now ∧
    Affected (run s earlier).tables (call.perform (run s earlier)).tables c x

theorem AffectedAt.head {call : Call} {rest : List Call} (hreading : call.op.reading? = some now)
    (h : Affected s.tables (call.perform s).tables c x) : AffectedAt now s (call :: rest) c x :=
  ⟨[], call, rest, rfl, hreading, h⟩

theorem AffectedAt.tail {call : Call} {rest : List Call}
    (h : AffectedAt now (call.perform s) rest c x) : AffectedAt now s (call :: rest) c x := by
  obtain ⟨earlier, call', later, rfl, hreading, h⟩ := h
  exact ⟨call :: earlier, call', later, rfl, hreading, h⟩

theorem run_append (s : World) (calls calls' : List Call) :
    run s (calls ++ calls') = run (run s calls) calls' := List.foldl_append

theorem Tables.Affected.cases {t t'' : Tables} (h : Affected t t'' c x) (t' : Tables) :
    Affected t t' c x ∨ Affected t' t'' c x := by
  rcases h with ⟨hno, hx⟩ | hd
  · by_cases hx' : t'.Marked c x
    · exact Or.inl (Or.inl ⟨hno, hx'⟩)
    · exact Or.inr (Or.inl ⟨hx', hx⟩)
  · exact (hd.cases t').imp Or.inr Or.inr

/-- What a run affects as a whole, one of its calls does. -/
theorem exists_affectedAt {calls : List Call} (hcalls : ∀ call ∈ calls, call.Timed)
    (h : Affected s.tables (run s calls).tables c x) : ∃ now, AffectedAt now s calls c x := by
  induction calls generalizing s with
  | nil =>
    rcases h with ⟨hno, hx⟩ | ⟨q, hq⟩ | ⟨v, hv⟩
    · exact absurd hx hno
    · exact absurd Iff.rfl hq
    · exact absurd Iff.rfl hv
  | cons call rest ih =>
    obtain ⟨-, now, hreading, -⟩ := hcalls call List.mem_cons_self
    rcases h.cases (call.perform s).tables with h | h
    · exact ⟨now, .head hreading h⟩
    · obtain ⟨now', h'⟩ := ih (fun call hc ↦ hcalls call (List.mem_cons_of_mem _ hc)) h
      exact ⟨now', h'.tail⟩

/-- **What is affected in a run is dated.** The mark that a cluster has in the end is not before the
time of any call that affected it. -/
theorem AffectedAt.dated {calls : List Call} (h : AffectedAt now s calls c x)
    (hs : s.tables.Sound) (hcalls : ∀ call ∈ calls, call.Timed) :
    ∃ m ∈ (run s calls).tables.marks, m.cluster = x ∧ m.config = c ∧ now ≤ m.datestamp := by
  obtain ⟨earlier, call, later, rfl, hreading, haffected⟩ := h
  have hcall : call.Timed := hcalls call (by simp)
  have hbefore : ∀ call ∈ earlier, call.Timed := fun call hc ↦ hcalls call (by simp [hc])
  have hafter : ∀ call ∈ later, call.Timed := fun call hc ↦ hcalls call (by simp [hc])
  obtain ⟨_, hearlier⟩ := exists_advances_run hbefore s
  obtain ⟨_, hlater⟩ := exists_advances_run hafter (call.perform (run s earlier))
  obtain ⟨hs₁, -⟩ := hearlier.2 hs
  obtain ⟨hs₂, hp, -⟩ := (hcall.advances hreading (run s earlier)).2 hs₁
  have hrenewed : Renewed now (run s earlier).tables (call.perform (run s earlier)).tables c x := by
    rcases haffected with ⟨hno, hx⟩ | hd
    · exact (hp.started c x hx).resolve_left hno
    · exact hp.renewed c x hd
  obtain ⟨m, hm, hx, hc, hnow, -⟩ := hrenewed.later (hlater.2 hs₂).2.1
  rw [run_append, run_cons_call]
  exact ⟨m, hm, hx, hc, hnow⟩

/-! ## Continuing a harvest -/

/-- **A continued listing sees the changes that came later.** A harvester has seen the rows of a
listing up to the last one, the engine goes on, and the listing is continued behind that row. A
cluster that was started or changed meanwhile is seen exactly when its mark is behind the row. If it
is not seen, then every call that affected it was at an earlier time than the row says, or at the
same time, and then the cluster was there before. -/
theorem continued_listing_sees_later_changes (h : Reachable s) {since : Datestamp}
    {place : Option ClusterId} {n : Nat} {rows : List ClusterMark} {last : ClusterMark}
    (hlist : s.tables.changedSince c since place n = .ok rows) (hlast : rows.getLast? = some last)
    {calls : List Call} (hcalls : ∀ call ∈ calls, call.Timed)
    (hstamps : ∀ m ∈ (run s calls).tables.marks, m.config = c → m.datestamp < Datestamp.limit)
    {n' : Nat} (hn : (run s calls).tables.marks.length ≤ n') :
    ∃ rows', (run s calls).tables.changedSince c last.datestamp (some last.cluster) n' = .ok rows' ∧
      ∀ x, Affected s.tables (run s calls).tables c x ∨ (∃ now, AffectedAt now s calls c x) →
        (∃ now, AffectedAt now s calls c x) ∧
        ∃ m ∈ (run s calls).tables.marks, m.cluster = x ∧ m.config = c ∧
          (m ∈ rows' ↔ last.before m = true) ∧
          (m ∉ rows' → ∀ now, AffectedAt now s calls c x → now < last.datestamp ∨
            now = last.datestamp ∧ (s.tables.Marked c x ∨ idLimit < (run s calls).ids.next)) := by
  have hs := h.sound
  obtain ⟨low, hrun⟩ := exists_advances_run hcalls s
  obtain ⟨hs', -, hmints⟩ := hrun.2 hs
  obtain ⟨rows', hok, hrows⟩ :=
    exists_changedSince last.datestamp (some last.cluster) hstamps hn
  refine ⟨rows', hok, fun x hx ↦ ?_⟩
  have haffected : ∃ now, AffectedAt now s calls c x := by
    rcases hx with hx | hx
    · exact exists_affectedAt hcalls hx
    · exact hx
  obtain ⟨now, hnow⟩ := id haffected
  obtain ⟨m, hm, hmx, hmc, -⟩ := hnow.dated hs hcalls
  have hseen : m ∈ rows' ↔ last.before m = true := by
    rw [hrows, ClusterMark.isListed_iff]
    exact ⟨fun hm ↦ hm.2.2, fun hb ↦ ⟨hm, hmc, hb⟩⟩
  refine ⟨haffected, m, hm, hmx, hmc, hseen, fun hmissed now hnow ↦ ?_⟩
  rw [hseen, ClusterMark.before_iff, not_or] at hmissed
  obtain ⟨hlate, hequal⟩ := hmissed
  -- The mark of the cluster is the one that every call has dated.
  obtain ⟨m', hm', hmx', -, hle⟩ := hnow.dated hs hcalls
  obtain rfl : m' = m := List.inj_on_of_nodup_map hs'.form.mark_nodup hm' hm (hmx'.trans hmx.symm)
  have hdate : now ≤ last.datestamp := hle.trans (not_lt.mp hlate)
  rcases hdate.lt_or_eq with hlt | heq
  · exact Or.inl hlt
  · refine Or.inr ⟨heq, ?_⟩
    by_contra hno
    obtain ⟨hnew, hids⟩ := not_or.mp hno
    have hids' : (run s calls).ids.next ≤ idLimit := Nat.not_lt.mp hids
    -- A cluster that is new has a greater identifier than all that were marked.
    have hold : last.cluster.toNat < s.ids.next :=
      (h.orderly (hrun.1.trans hids')).mark_lt last
        (mem_of_mem_changedSince hlist (List.mem_of_getLast? hlast))
    have hyoung : s.ids.next ≤ x.toNat :=
      (hmints hids' c x ⟨m', hm', hmx, hmc⟩).resolve_left hnew
    refine hequal ⟨le_antisymm (heq ▸ hle) (not_lt.mp hlate), ?_⟩
    rw [hmx, ClusterId.lt_iff_toNat]
    exact hold.trans_le hyoung

open Sample in
/-- The source of both records is deleted after a harvest, and the harvester sees the cluster that
they leave. -/
theorem harvest_sees_deleted_source : ∃ rows,
    (run (run blank bridge) [⟨.free, .deleteSource library 7⟩]).tables.changedSince "isbn" 6
      (some ⟨Uuid.ofNat 3⟩) 10 = .ok rows ∧ ∃ m ∈ rows, m.cluster = ⟨Uuid.ofNat 2⟩ := by
  have hlist : (run blank bridge).tables.changedSince "isbn" 0 none 10
      = .ok [⟨⟨Uuid.ofNat 2⟩, "isbn", 6⟩, ⟨⟨Uuid.ofNat 3⟩, "isbn", 6⟩] := by
    decide +kernel
  have hcalls : ∀ call ∈ [(⟨.free, .deleteSource library 7⟩ : Call)], call.Timed := by
    rintro call hcall
    rw [List.mem_singleton.mp hcall]
    exact ⟨trivial, 7, rfl, by decide⟩
  have hroom : (run (run blank bridge) [⟨.free, .deleteSource library 7⟩]).tables.marks.length
      ≤ 10 := by decide +kernel
  have hstays : (⟨⟨Uuid.ofNat 0⟩, "isbn", .intact ⟨Uuid.ofNat 2⟩⟩ : MemberRow) ∈
      (run blank bridge).tables.members := by decide +kernel
  have hgone : (⟨⟨Uuid.ofNat 0⟩, "isbn", .intact ⟨Uuid.ofNat 2⟩⟩ : MemberRow) ∉
      (Call.perform ⟨.free, .deleteSource library 7⟩ (run blank bridge)).tables.members := by
    decide +kernel
  have hdiffers : Differs (run blank bridge).tables
      (Call.perform ⟨.free, .deleteSource library 7⟩ (run blank bridge)).tables "isbn"
      ⟨Uuid.ofNat 2⟩ :=
    Or.inl ⟨⟨Uuid.ofNat 0⟩, fun h ↦ hgone (h.mpr hstays)⟩
  have haffected : AffectedAt 7 (run blank bridge) [⟨.free, .deleteSource library 7⟩] "isbn"
      ⟨Uuid.ofNat 2⟩ :=
    .head rfl (Or.inr hdiffers)
  have hstamps : ∀ m ∈ (run (run blank bridge) [⟨.free, .deleteSource library 7⟩]).tables.marks,
      m.config = "isbn" → m.datestamp < Datestamp.limit := by decide +kernel
  obtain ⟨rows, hok, hseen⟩ := continued_listing_sees_later_changes reachable_bridge hlist rfl
    hcalls hstamps hroom
  obtain ⟨-, m, -, hmx, -, -, hmissed⟩ := hseen _ (Or.inr ⟨7, haffected⟩)
  refine ⟨rows, hok, m, ?_, hmx⟩
  by_contra hno
  rcases hmissed hno 7 haffected with h | ⟨h, -⟩
  · exact absurd h (by decide)
  · exact absurd h (by decide)

namespace Sample

/-- An ingester of the library that computes the only match key. -/
def reader : Ingester :=
  ⟨.free, library, 1, none, [(isbn, Extractor.toMethod ⟨.mk .root []⟩)], 600, 1⟩

/-- A record with one value is submitted at noon. -/
def submit (localId value : String) : Call :=
  ⟨.free, .ingest reader 5 (.store localId (.array [.string value]))⟩

/-- A record is submitted twice while the clock stands still. -/
def repeated : List Call := [⟨.free, .insertMatchKey isbn⟩, submit "a" "x", submit "a" "x"]

end Sample

open Sample in
/-- While the clock stands still, a cluster that is touched again runs ahead of it, and hides one
that starts after it was harvested. So it is not true that harvesting misses nothing. -/
theorem standing_clock_hides_cluster :
    ¬∀ (s₀ : World) (history further : List Call) (c : String) (since : Datestamp) (n : Nat)
        (rows : List ClusterMark) (last : ClusterMark),
      s₀.tables = .empty →
      (∀ call ∈ history, call.op.IsEngine ∧ ∀ now ∈ call.op.reading?, now < Datestamp.limit) →
      (∀ call ∈ further, call.Timed) →
      ((history ++ further).filterMap (·.op.reading?)).Pairwise (· ≤ ·) →
      (∀ m ∈ (run s₀ history).tables.marks, m.config = c → since ≤ m.datestamp) →
      (run s₀ (history ++ further)).tables.marks.length ≤ n →
      (run s₀ history).tables.changedSince c since none n = .ok rows →
      rows.getLast? = some last →
      ∀ x, Affected (run s₀ history).tables (run s₀ (history ++ further)).tables c x →
        ∃ rows', (run s₀ (history ++ further)).tables.changedSince c last.datestamp
            (some last.cluster) n = .ok rows' ∧ ∃ m ∈ rows', m.cluster = x := by
  intro hall
  have hcalls : ∀ call ∈ repeated,
      call.op.IsEngine ∧ ∀ now ∈ call.op.reading?, now < Datestamp.limit := by
    simp [repeated, submit, Operation.IsEngine, Operation.reading?, Datestamp.limit]
  have htimed : ∀ call ∈ [submit "b" "y"], call.Timed := by
    rintro call hcall
    rw [List.mem_singleton.mp hcall]
    exact ⟨trivial, 5, rfl, by decide⟩
  have hmark : (⟨⟨Uuid.ofNat 4⟩, "isbn", 5⟩ : ClusterMark) ∈
      (run blank (repeated ++ [submit "b" "y"])).tables.marks := by decide +kernel
  have hnew : ¬(run blank repeated).tables.Marked "isbn" ⟨Uuid.ofNat 4⟩ := by
    have hno : ∀ m ∈ (run blank repeated).tables.marks, m.cluster ≠ ⟨Uuid.ofNat 4⟩ := by
      decide +kernel
    rintro ⟨m, hm, hmx, -⟩
    exact hno m hm hmx
  have hempty : (run blank (repeated ++ [submit "b" "y"])).tables.changedSince "isbn" 6
      (some ⟨Uuid.ofNat 1⟩) 10 = .ok [] := by
    decide +kernel
  obtain ⟨rows', hok, m, hm, -⟩ := hall blank repeated [submit "b" "y"] "isbn" 0 10
    [⟨⟨Uuid.ofNat 1⟩, "isbn", 6⟩] ⟨⟨Uuid.ofNat 1⟩, "isbn", 6⟩ rfl hcalls htimed (by decide)
    (by decide +kernel) (by decide +kernel) rfl rfl ⟨Uuid.ofNat 4⟩
    (Or.inl ⟨hnew, _, hmark, rfl, rfl⟩)
  rw [hempty] at hok
  rw [← Except.ok.inj hok] at hm
  exact absurd hm List.not_mem_nil

end RecordLinkage
