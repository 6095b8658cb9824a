import Mathlib.Data.List.Induction
import RecordLinkage.Proofs.Ingest.Dealing

/-!
# What is left of the records that were named

Submissions may name a record many times, with other payloads each time, and remove it in between.
What is left of it is the payload that was stored last and the values that it was assigned with
last, as long as it was not removed after that. The deeds of the submissions say which these are,
and `Carried` is this account of a sequence of any submissions.

Where submissions name different records the order of their deeds does not matter, and `Dealt` says
more. Here it does matter, so the account grows by one deed at the end.
-/

namespace RecordLinkage

open Clustering Work Tables

variable {i : Ingester} {s s' s'' : World} {now : Datestamp} {config : String} {a : List Deed}
  {t : Tables} {H H' : List (RecordId × List String)} {key : RecordKey} {payload : Json}

/-! ## The last deeds of a key -/

/-- What a deed makes of a row that is there in the end. -/
def Deed.rewrite (row : RecordRow) : Deed → RecordRow
  | store key payload => repaid key payload row
  | remove _ => row

/-- A row with the payload that was stored last under its key. -/
def settled (deeds : List Deed) (row : RecordRow) : RecordRow := deeds.foldl Deed.rewrite row

theorem settled_append (a b : List Deed) (row : RecordRow) :
    settled (a ++ b) row = settled b (settled a row) :=
  List.foldl_append

@[simp] theorem settled_singleton (d : Deed) (row : RecordRow) : settled [d] row = d.rewrite row :=
  rfl

theorem settled_id_key (deeds : List Deed) (row : RecordRow) :
    (settled deeds row).id = row.id ∧ (settled deeds row).key = row.key := by
  induction deeds using List.reverseRecOn with
  | nil => exact ⟨rfl, rfl⟩
  | append_singleton deeds d ih =>
    rw [settled_append, settled_singleton]
    cases d with
    | store key payload =>
      rw [Deed.rewrite, repaid_id, repaid_key]
      exact ih
    | remove key => exact ih

/-- A row is not changed by storing what it has. -/
theorem rewrite_settled {row : RecordRow} (deeds : List Deed)
    (hpayload : row.payload = payload.text) :
    (Deed.store row.key payload).rewrite (settled deeds row) = row := by
  obtain ⟨hid, hkey⟩ := settled_id_key deeds row
  rw [Deed.rewrite, repaid, if_pos hkey, hid, hkey, ← hpayload]

namespace Ingester

/-- What a deed makes of the set of values that the record of a key was assigned with last. -/
def reassign (i : Ingester) (config : String) (key : RecordKey) (last : Option (List String)) :
    Deed → Option (List String)
  | .store k payload => if k = key then (i.sets config payload).head?.or last else last
  | .remove k => if k = key then none else last

/-- The set of values that the record of a key was assigned with last, since it is there. -/
def lastSet? (i : Ingester) (config : String) (key : RecordKey) (deeds : List Deed) :
    Option (List String) :=
  deeds.foldl (i.reassign config key) none

theorem lastSet?_append (i : Ingester) (config : String) (key : RecordKey) (deeds : List Deed)
    (d : Deed) : i.lastSet? config key (deeds ++ [d])
      = i.reassign config key (i.lastSet? config key deeds) d := by
  rw [lastSet?, List.foldl_append]
  rfl

end Ingester

/-! ## The history of a match key -/

/-- The history of a match key, as far as a sequence of deeds determines it. -/
structure Recalls (i : Ingester) (config : String) (deeds : List Deed) (t : Tables)
    (H : List (RecordId × List String)) : Prop where
  /-- The sets that were assigned are those of the payloads that were stored. -/
  sets : ∀ S, (∃ e ∈ H, e.2 = S) ↔ ∃ key payload, .store key payload ∈ deeds ∧
    S ∈ i.sets config payload
  /-- A record that is there was assigned with the last set of its key. -/
  lookup : ∀ {key row r}, t.recordOf? key = some row → row.id = .intact r →
    H.lookup r = i.lastSet? config key deeds
  /-- A key without a record has no last set. -/
  gone : ∀ {key}, t.recordOf? key = none → i.lastSet? config key deeds = none

/-- **What has happened after a sequence of deeds.** -/
structure Carried (i : Ingester) (deeds : List Deed) (s s' : World) : Prop where
  orderly : s'.Orderly
  grows : Grows s s'
  matchKeys : s'.tables.matchKeys = s.tables.matchKeys
  /-- Every row has the payload that was stored last under its key. -/
  rows : ∀ row ∈ s'.tables.records, settled deeds row = row
  /-- What was stored is there, if nothing was removed. -/
  present : (∀ key, .remove key ∉ deeds) → ∀ key payload, .store key payload ∈ deeds →
    s'.tables.recordOf? key ≠ none
  course : ∀ config, ∃ H, Course config s H s' ∧ Recalls i config deeds s'.tables H

/-- A deed leaves the rows of other keys alone. -/
theorem Dealt.untouched_of_ne {d : Deed} (hd : Dealt i [d] s s') (hkey : d.key ≠ key) :
    s'.tables.recordOf? key = s.tables.recordOf? key := by
  refine hd.untouched key fun e he ↦ ?_
  rwa [List.mem_singleton.mp he]

/-- Without a deed all rows are left alone. -/
theorem Dealt.untouched_of_idle (hd : Dealt i [] s s') (key : RecordKey) :
    s'.tables.recordOf? key = s.tables.recordOf? key :=
  hd.untouched key fun _ he ↦ absurd he List.not_mem_nil

theorem Recounts.eq_nil {b : List Deed} (h : Recounts i config b t H)
    (hno : ∀ key payload, .store key payload ∉ b) : H = [] := by
  rw [List.eq_nil_iff_forall_not_mem]
  intro e he
  obtain ⟨key, payload, hd, -⟩ := (h.sets e.2).mp ⟨e, he, rfl⟩
  exact hno key payload hd

namespace Recalls

variable (h : Recalls i config a s'.tables H)

include h

private theorem sets_append {d : Deed} (h' : Recounts i config [d] s''.tables H')
    (S : List String) : (∃ e ∈ H' ++ H, e.2 = S) ↔ ∃ key payload,
      .store key payload ∈ a ++ [d] ∧ S ∈ i.sets config payload := by
  simp only [List.mem_append, or_and_right, exists_or, h.sets, h'.sets]
  exact or_comm

theorem store (hd : Dealt i [.store key payload] s' s'')
    (h' : Recounts i config [.store key payload] s''.tables H')
    (hlt : ∀ e ∈ H, e.1.toNat < s'.ids.next) :
    Recalls i config (a ++ [.store key payload]) s''.tables (H' ++ H) := by
  have hmem := List.mem_singleton_self (Deed.store key payload)
  obtain ⟨q, hq, hold, hnew⟩ := hd.stored key payload hmem
  refine ⟨h.sets_append h', fun {k row r} hrow hid ↦ ?_, fun {k} hnone ↦ ?_⟩
  · rw [List.lookup_append, Ingester.lastSet?_append, Ingester.reassign]
    by_cases hk : key = k
    · subst hk
      obtain rfl := Option.some.inj (hq.symm.trans hrow)
      obtain rfl := Cell.intact.inj hid
      rw [if_pos rfl, h'.lookup hmem hq rfl]
      refine congrArg _ ?_
      rcases hrow' : s'.tables.recordOf? key with - | row'
      · -- The record is new, so it was never assigned before.
        rw [h.gone hrow', List.lookup_eq_none_iff]
        intro e he
        refine bne_iff_ne.mpr fun heq ↦ ?_
        exact absurd (heq ▸ hlt e he) (Nat.not_lt.mpr (hnew hrow'))
      · exact h.lookup hrow' (hold row' hrow')
    · have hno : ∀ p, Deed.store k p ∉ [Deed.store key payload] :=
        fun p hp ↦ hk (Deed.store.inj (List.mem_singleton.mp hp)).1.symm
      rw [if_neg hk, lookup_eq_none_of_listed hd.orderly.form h'.listed hrow hid hno,
        Option.none_or]
      exact h.lookup ((hd.untouched_of_ne hk).symm.trans hrow) hid
  · rw [Ingester.lastSet?_append, Ingester.reassign]
    have hk : key ≠ k := by
      rintro rfl
      exact Option.some_ne_none _ (hq.symm.trans hnone)
    rw [if_neg hk]
    exact h.gone ((hd.untouched_of_ne hk).symm.trans hnone)

theorem remove (hd : Dealt i [.remove key] s' s'')
    (h' : Recounts i config [.remove key] s''.tables H') :
    Recalls i config (a ++ [.remove key]) s''.tables (H' ++ H) := by
  have hgone := hd.removed key (List.mem_singleton_self _)
  obtain rfl := h'.eq_nil fun k p hp ↦ nomatch List.mem_singleton.mp hp
  refine ⟨h.sets_append h', fun {k row r} hrow hid ↦ ?_, fun {k} hnone ↦ ?_⟩
  · rw [Ingester.lastSet?_append, Ingester.reassign]
    have hk : key ≠ k := by
      rintro rfl
      exact Option.some_ne_none _ (hrow.symm.trans hgone)
    rw [if_neg hk]
    exact h.lookup ((hd.untouched_of_ne hk).symm.trans hrow) hid
  · rw [Ingester.lastSet?_append, Ingester.reassign]
    split_ifs with hk
    · rfl
    · exact h.gone ((hd.untouched_of_ne hk).symm.trans hnone)

theorem idle (hsame : ∀ k, s''.tables.recordOf? k = s'.tables.recordOf? k) :
    Recalls i config a s''.tables H where
  sets := h.sets
  lookup hrow hid := h.lookup ((hsame _).symm.trans hrow) hid
  gone hnone := h.gone ((hsame _).symm.trans hnone)

end Recalls

/-- A record that is there was assigned with the last set of its key. -/
theorem Carried.exists_course (h : Carried i a s s') (config : String) {row : RecordRow}
    {r : RecordId} (hrow : row ∈ s'.tables.records) (hid : row.id = .intact r) :
    ∃ H, Course config s H s' ∧ H.lookup r = i.lastSet? config row.key a := by
  obtain ⟨H, hcourse, hH⟩ := h.course config
  exact ⟨H, hcourse, hH.lookup (h.orderly.form.recordOf?_of_mem hrow) hid⟩

/-! ## One deed more -/

namespace Carried

/-- Before the first deed. -/
theorem start (ho : s.Orderly) : Carried i [] s s where
  orderly := ho
  grows := Nat.le_refl _
  matchKeys := rfl
  rows _ _ := rfl
  present _ _ _ hd := absurd hd List.not_mem_nil
  course config := ⟨[], .start, by simp, fun _ _ ↦ rfl, fun _ ↦ rfl⟩

variable (h : Carried i a s s')

include h

/-- Rows of other keys are the rows that were there. -/
private theorem rows_of_untouched (hform : s''.tables.Wellformed) {row : RecordRow}
    (hrow : row ∈ s''.tables.records)
    (hsame : s''.tables.recordOf? row.key = s'.tables.recordOf? row.key) :
    settled a row = row := by
  have hfound := hform.recordOf?_of_mem hrow
  rw [hsame] at hfound
  exact h.rows row (List.mem_of_find?_eq_some hfound)

theorem idle (hd : Dealt i [] s' s'') : Carried i a s s'' where
  orderly := hd.orderly
  grows := h.grows.trans hd.grows
  matchKeys := hd.matchKeys.trans h.matchKeys
  rows _ hrow := h.rows_of_untouched hd.orderly.form hrow (hd.untouched_of_idle _)
  present hno key payload hstore := by
    rw [hd.untouched_of_idle key]
    exact h.present hno key payload hstore
  course config := by
    obtain ⟨H, hcourse, hH⟩ := h.course config
    obtain ⟨H', hcourse', hH'⟩ := hd.course config
    obtain rfl := hH'.eq_nil fun k p hp ↦ List.not_mem_nil hp
    exact ⟨_, hcourse.trans hcourse', hH.idle hd.untouched_of_idle⟩

theorem store (hs : s.tables.Wellformed) (hn : ∀ config, Numbered config s)
    (hd : Dealt i [.store key payload] s' s'') :
    Carried i (a ++ [.store key payload]) s s'' where
  orderly := hd.orderly
  grows := h.grows.trans hd.grows
  matchKeys := hd.matchKeys.trans h.matchKeys
  rows row hrow := by
    rw [settled_append, settled_singleton]
    have hfound := hd.orderly.form.recordOf?_of_mem hrow
    by_cases hkey : row.key = key
    · subst hkey
      obtain ⟨q, hq, -⟩ := hd.stored row.key payload (List.mem_singleton_self _)
      exact rewrite_settled a (congrArg RecordRow.payload (Option.some.inj (hfound.symm.trans hq)))
    · have hsame : settled a row = row :=
        h.rows_of_untouched hd.orderly.form hrow (hd.untouched_of_ne (Ne.symm hkey))
      rw [hsame, Deed.rewrite, repaid, if_neg hkey]
  present hno k p hstore := by
    by_cases hk : key = k
    · subst hk
      obtain ⟨q, hq, -⟩ := hd.stored key payload (List.mem_singleton_self _)
      rw [hq]
      exact Option.some_ne_none _
    · rw [hd.untouched_of_ne hk]
      refine h.present (fun k' hk' ↦ hno k' (List.mem_append_left _ hk')) k p ?_
      refine (List.mem_append.mp hstore).resolve_right fun hp ↦ ?_
      exact hk (Deed.store.inj (List.mem_singleton.mp hp)).1.symm
  course config := by
    obtain ⟨H, hcourse, hH⟩ := h.course config
    obtain ⟨H', hcourse', hH'⟩ := hd.course config
    -- Whatever was assigned so far has a lesser identifier than a record that is made now.
    have hlt := (hcourse.tracks hs (hn config)).history_lt
    exact ⟨_, hcourse.trans hcourse', hH.store hd hH' hlt⟩

theorem remove (hd : Dealt i [.remove key] s' s'') : Carried i (a ++ [.remove key]) s s'' where
  orderly := hd.orderly
  grows := h.grows.trans hd.grows
  matchKeys := hd.matchKeys.trans h.matchKeys
  rows row hrow := by
    rw [settled_append, settled_singleton, Deed.rewrite]
    refine h.rows_of_untouched hd.orderly.form hrow (hd.untouched_of_ne ?_)
    rintro rfl
    have hfound := hd.orderly.form.recordOf?_of_mem hrow
    exact Option.some_ne_none _ (hfound.symm.trans (hd.removed _ (List.mem_singleton_self _)))
  -- The deed itself removes.
  present hno := absurd (List.mem_append_right _ (List.mem_singleton_self _)) (hno key)
  course config := by
    obtain ⟨H, hcourse, hH⟩ := h.course config
    obtain ⟨H', hcourse', hH'⟩ := hd.course config
    exact ⟨_, hcourse.trans hcourse', hH.remove hd hH'⟩

end Carried

/-- **Submissions do their deeds one after the other**, whatever records they name. -/
theorem Ingester.carry_carried (i : Ingester) (now : Datestamp) (submissions : List Submission)
    (ho : s.Orderly) (hn : ∀ config, Numbered config s)
    (hids : (i.carry now submissions s).2.ids.next < idLimit) :
    Carried i (i.deeds s.tables submissions) s (i.carry now submissions s).2 := by
  -- From the end, as what a deed overrides is what the deeds before it have left.
  induction submissions using List.reverseRecOn with
  | nil => exact .start ho
  | append_singleton submissions submission ih =>
    rw [carry_append] at hids ⊢
    have hfirst := ih ((i.carry_grows now [submission] _).trans_lt hids)
    obtain ⟨-, hdealt⟩ := ingest_dealt hfirst.orderly hids
    rw [deed?_congr hfirst.matchKeys] at hdealt
    rw [deeds_append, deeds_cons]
    rcases hdeed : i.deed? s.tables submission with - | ⟨key, payload⟩ | key <;>
      rw [hdeed] at hdealt
    · rw [Option.toList_none, List.nil_append, show i.deeds s.tables [] = [] from rfl,
        List.append_nil]
      exact hfirst.idle hdealt
    · exact hfirst.store ho.form hn hdealt
    · exact hfirst.remove hdealt

end RecordLinkage
