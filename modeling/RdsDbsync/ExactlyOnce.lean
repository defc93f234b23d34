/-
  The local log across reconnects: when each transaction of the source becomes exactly
  one group of rows.
-/
import RdsDbsync.Durability

namespace RdsDbsync

open Bytes

/-! ## Groups -/

/-- The group of a transaction: `begin;`, its statements, `commit;`. -/
def StreamTxn.group (t : StreamTxn) : List Bytes :=
  ascii "begin;" :: t.changes.map StreamItem.row ++ [ascii "commit;"]

/-- The row of a begin or commit message. -/
theorem row_of_kind {item : StreamItem} (h : item.kind = .begin ∨ item.kind = .commit) :
    item.row = if item.kind = .begin then ascii "begin;" else ascii "commit;" := by
  obtain ⟨-, hd⟩ := item.delivers
  obtain ⟨s, msg, -, ht, rc, hrow⟩ := hd fun _ => 0
  rcases h with h | h <;> rw [h] at ht ⊢ <;>
    simp only [outPutTupleToSql, checktuple, ht, reduceCtorEq, Option.some.injEq, false_and,
      false_or, if_false, if_true, ne_eq, not_true_eq_false, Except.ok.injEq, Prod.mk.injEq] at hrow ⊢
  · exact hrow.2.symm
  · exact hrow.2.symm

/-- The rows of a transaction's messages are its group. -/
theorem StreamTxn.rows_eq_group (t : StreamTxn) : t.rows = t.group := by
  simp [rows, items, group, row_of_kind (Or.inl t.start_kind), row_of_kind (Or.inr t.finish_kind),
    t.start_kind, t.finish_kind]

/-! ## The property -/

/-- **Exactly once**: the committed local transactions are the groups of the first transactions
of the history, of all of them once a stream is exhausted. -/
def ExactlyOnce (H : History) (s : System) : Prop :=
  ∃ n ≤ H.txns.length, s.receiver.db.committed = (H.txns.take n).map StreamTxn.group ∧
    (s.receiver.pc.live → s.receiver.handler.conn = .streaming → s.queue = [] →
      n = H.txns.length)

/-- The local database does not fail. -/
def LocalOk : StreamEvent → Prop
  | .data _ outcome => outcome = ⟨true, true, true⟩
  | _ => True

/-- When a stream starts, no local transaction is open, and the server goes back to the first
transaction that is not committed locally. -/
def ResumesAfterCommitted (H : History) (s : System) : StreamEvent → Prop
  | .client (.connect .started) => s.receiver.db.current = none ∧
      (OrderedLog.before StreamTxn.commitLsn (max s.receiver.handler.startpos s.confirmed)
        H.txns).length = s.receiver.db.committed.length
  | _ => True

instance : ∀ e, Decidable (LocalOk e)
  | .data _ _ => inferInstanceAs (Decidable (_ = _))
  | .client _ | .keepalive _ _ _ _ => inferInstanceAs (Decidable True)

instance (H : History) (s : System) : ∀ e, Decidable (ResumesAfterCommitted H s e)
  | .client (.connect .started) => inferInstanceAs (Decidable (_ ∧ _))
  | .client (.connect .exits) | .client (.connect .noConnection)
  | .client (.connect .identifyFailed) | .client (.connect .startFailed) | .client .timeToAbort
  | .client (.wake _ _) | .client (.noData _) | .client (.endOfCopy _) | .client .readFailed
  | .client (.frame _ _) | .data _ _ | .keepalive _ _ _ _ => inferInstanceAs (Decidable True)

/-! ## The invariant -/

/-- What is received of the transaction at the head of the queue is the open local transaction. -/
def OpenGroup (s : System) : Prop :=
  s.sent = 0 ∧ s.receiver.db.current = none ∨ ∃ t rest, s.queue = t :: rest ∧ 0 < s.sent ∧
    s.sent < t.items.length ∧ s.receiver.db.current = some (t.rows.take s.sent)

/-- The invariant. -/
def OnceInv (H : History) (s : System) : Prop :=
  ∃ n ≤ H.txns.length, s.receiver.db.committed = (H.txns.take n).map StreamTxn.rows ∧
    (s.receiver.pc.live → s.receiver.handler.conn = .streaming →
      s.queue = H.txns.drop n ∧ OpenGroup s)

section
variable {H : History} {s s' : System}

theorem OnceInv.exactlyOnce (h : OnceInv H s) : ExactlyOnce H s := by
  obtain ⟨n, hn, hc, hst⟩ := h
  refine ⟨n, hn, by rw [hc, funext StreamTxn.rows_eq_group], ?_⟩
  intro hl hs hq
  have := (hst hl hs).1.symm.trans hq
  exact Nat.le_antisymm hn (List.drop_eq_nil_iff.1 this)

/-- **A message that is stored** extends the open group, or makes it a committed one. -/
theorem OpenGroup.stores {n : ℕ} {item : StreamItem} (hopen : OpenGroup s)
    (hqueue : s.queue = H.txns.drop n) (hst : Stores s s' item) (hn : n ≤ H.txns.length)
    (hc : s.receiver.db.committed = (H.txns.take n).map StreamTxn.rows) :
    ∃ m ≤ H.txns.length, s'.receiver.db.committed = (H.txns.take m).map StreamTxn.rows ∧
      s'.queue = H.txns.drop m ∧ OpenGroup s' := by
  cases hst with
  | inside t rest head place lt queue db =>
    refine ⟨n, hn, by rw [db]; exact hc, queue.1.trans hqueue, ?_⟩
    rw [OpenGroup, queue.1, queue.2, db]
    refine Or.inr ⟨t, rest, head, Nat.succ_pos _, lt, ?_⟩
    rw [t.take_rows_succ place]
    rcases hopen with ⟨h0, hnone⟩ | ⟨t', rest', head', -, -, hcur⟩
    · rw [h0, hnone]
      rfl
    · obtain ⟨rfl, rfl⟩ := List.cons.inj (head.symm.trans head')
      rw [hcur]
      rfl
  | last t rest rows head finish current pos group queue db =>
    obtain ⟨t', rest', head', -, -, hcur⟩ := hopen.resolve_left fun h => pos.ne' h.1
    obtain ⟨rfl, rfl⟩ := List.cons.inj (head.symm.trans head')
    obtain rfl := Option.some.inj (current.symm.trans hcur)
    have hdrop : H.txns.drop n = t :: rest := hqueue ▸ head
    have hget : H.txns[n]? = some t := by rw [← List.head?_drop, hdrop]; rfl
    refine ⟨n + 1, (List.getElem?_eq_some_iff.1 hget).1, ?_, queue.1.trans (H.finish_le hdrop).1, ?_⟩
    · rw [db, ← group, List.take_add_one, hget, List.map_append, ← hc]
      rfl
    · rw [OpenGroup, queue.1, queue.2, db]
      exact Or.inl ⟨rfl, rfl⟩

/-- **One step keeps the invariant.** -/
theorem onceInv_step {e : StreamEvent} (hI : OnceInv H s)
    (hok : LocalOk e ∧ ResumesAfterCommitted H s e) (h : s.step H e = some s') : OnceInv H s' := by
  have hlive := System.live_of_step h
  obtain ⟨n, hn, hc, hst⟩ := hI
  cases System.step_cases h with
  | quiet kept fed queue committed db =>
    refine ⟨n, hn, committed.trans hc, ?_⟩
    intro hl hconn
    rw [OpenGroup, queue.1, queue.2, db hl]
    exact hst hlive (kept.conn hconn)
  | down db handler server =>
    refine ⟨n, hn, db ▸ hc, ?_⟩
    intro hl hconn
    rw [handler hl] at hconn
    cases hconn
  | @start outcome _ db handler acks confirmed queue =>
    refine ⟨n, hn, db ▸ hc, ?_⟩
    intro _ hconn
    have ho : outcome = .started := by
      by_contra ho
      rw [handler, if_neg ho] at hconn
      cases hconn
    subst ho
    obtain ⟨hnone, hlen⟩ := hok.2
    obtain ⟨hsent, hqueue⟩ := queue rfl
    have hlen' : s.receiver.db.committed.length = n := by simp [hc, hn]
    refine ⟨?_, Or.inl ⟨hsent, db ▸ hnone⟩⟩
    rw [hqueue, OrderedLog.since_eq_drop H.sorted, hlen, hlen']
  | @data env outcome _ item next conn fed queue h' kept conn' result =>
    obtain ⟨hqueue, hopen⟩ := hst hlive conn
    rcases result with ⟨hr, -⟩ | ⟨-, hd⟩ | hr
    · refine ⟨n, hn, by rw [hr]; exact hc, ?_⟩
      intro _ hconn
      rw [hr] at hconn
      cases hconn
    · exact absurd hok.1 hd
    · have hsome : s.sent = 0 ∨ ∃ rows, s.receiver.db.current = some rows :=
        hopen.imp And.left fun ⟨_, _, _, _, _, hcur⟩ => ⟨_, hcur⟩
      obtain ⟨m, hm, hc', hst'⟩ := hopen.stores hqueue
        (System.stores next queue hsome (by rw [hr]; rfl)) hn hc
      exact ⟨m, hm, hc', fun _ _ => hst'⟩
  | keepalive bound conn fed queue db kept =>
    refine ⟨n, hn, db ▸ hc, ?_⟩
    intro _ _
    rw [OpenGroup, queue.1, queue.2, db]
    exact hst hlive conn

theorem onceInv_init (H : History) : OnceInv H (.init H) :=
  ⟨0, Nat.zero_le _, rfl, nofun⟩

/-- **Exactly-once local log** in every run in which the local database does not fail and every
stream starts with no local transaction open and at the first transaction that is not committed
locally. -/
theorem exactlyOnce_of_run {es : List StreamEvent}
    (hm : StepMachine.Meets (System.step H)
      (fun s e => LocalOk e ∧ ResumesAfterCommitted H s e) (.init H) es)
    (hr : StepMachine.run (System.step H) (.init H) es = some s) : ExactlyOnce H s :=
  OnceInv.exactlyOnce (StepMachine.run_invariant
    (fun _ _ _ hI hok h => onceInv_step hI hok h) (onceInv_init H) hm hr)

end

/-- The stream is resumed behind the first transaction, and read to its end. -/
theorem exactlyOnce_insertDelete :
    ∃ s, StepMachine.run (System.step insertDelete) (.init insertDelete) (resumedRun ++
        received (envAt 0 true) ++ received (envAt 0 true) ++ received (envAt 0 true)) = some s ∧
      s.receiver.db.committed = [insertGroup,
        [ascii "begin;", ascii "DELETE FROM test_case.d WHERE a=5 AND d=3;", ascii "commit;"]] ∧
      ExactlyOnce insertDelete s := by
  have hr : (StepMachine.run (System.step insertDelete) (.init insertDelete) (resumedRun ++
      received (envAt 0 true) ++ received (envAt 0 true) ++ received (envAt 0 true))).map
        (fun s => s.receiver.db.committed) = some [insertGroup,
          [ascii "begin;", ascii "DELETE FROM test_case.d WHERE a=5 AND d=3;",
            ascii "commit;"]] := by decide +kernel
  obtain ⟨s, hs, hc⟩ := Option.map_eq_some_iff.1 hr
  exact ⟨s, hs, hc, exactlyOnce_of_run (by decide +kernel) hs⟩

/-- The stream drops inside a transaction and is resumed. -/
def restartRun : List StreamEvent :=
  [.client (.connect .started)] ++ received (envAt 0 true) ++
    [.client (.wake 0 ⟨true, true⟩), .client .readFailed] ++ firstRun true

/-- The local transaction is left open, and the statements that are sent again join it. -/
theorem repeated_insertDelete :
    ∃ s, StepMachine.run (System.step insertDelete) (.init insertDelete) restartRun = some s ∧
      s.receiver.db.committed = [ascii "begin;" :: insertGroup] ∧ ¬ ExactlyOnce insertDelete s := by
  have hr : (StepMachine.run (System.step insertDelete) (.init insertDelete) restartRun).map
      (fun s => s.receiver.db.committed) = some [ascii "begin;" :: insertGroup] := by
    decide +kernel
  obtain ⟨s, hs, hc⟩ := Option.map_eq_some_iff.1 hr
  refine ⟨s, hs, hc, ?_⟩
  rintro ⟨n, -, h, -⟩
  rw [hc] at h
  have hgroup : (insertDelete.txns.map StreamTxn.group)[0]? = some insertGroup := by decide +kernel
  have hne : ascii "begin;" :: insertGroup ≠ insertGroup := by decide
  rcases n with _ | n
  · cases h
  · rw [List.map_take] at h
    have hhead := congrArg (fun l => l[0]?) h
    rw [List.getElem?_take_of_lt (Nat.succ_pos n), hgroup] at hhead
    exact hne (Option.some.inj hhead)

end RdsDbsync
