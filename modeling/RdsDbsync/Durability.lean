/-
  Acknowledged implies durable: which positions the client may have confirmed, or asked
  to stream from, when a transaction is not yet committed locally.
-/
import RdsDbsync.Lib.OrderedLog
import RdsDbsync.StreamStep

namespace RdsDbsync

open Bytes

/-! ## Transactions of a history -/

namespace StreamTxn

variable {t : StreamTxn} {item : StreamItem} {k : ℕ}

@[simp] theorem length_items (t : StreamTxn) : t.items.length = t.changes.length + 2 := by
  simp [items]

/-- The messages of a transaction by their place. -/
theorem item_cases (h : t.items[k]? = some item) :
    (k = 0 ∧ item = t.start) ∨ (0 < k ∧ k + 1 < t.items.length ∧ item ∈ t.changes) ∨
      (0 < k ∧ k + 1 = t.items.length ∧ item = t.finish) := by
  rw [length_items]
  rcases k with _ | k
  · exact Or.inl ⟨rfl, by simpa [items] using h.symm⟩
  · have h' : (t.changes ++ [t.finish])[k]? = some item := by simpa [items] using h
    rcases Nat.lt_trichotomy k t.changes.length with hk | hk | hk
    · rw [List.getElem?_append_left hk] at h'
      exact Or.inr (Or.inl ⟨by omega, by omega, List.mem_of_getElem? h'⟩)
    · rw [List.getElem?_append_right hk.ge, hk, Nat.sub_self] at h'
      exact Or.inr (Or.inr ⟨by omega, by omega, by simpa using h'.symm⟩)
    · rw [List.getElem?_eq_none (by simp; omega)] at h'
      cases h'

/-- A message other than the last lies before the commit record. -/
theorem lsn_lt (h : t.items[k]? = some item) (hk : k + 1 < t.items.length) :
    item.data.lsn < t.commitLsn := by
  rcases item_cases h with ⟨-, rfl⟩ | ⟨-, -, hm⟩ | ⟨-, hlast, -⟩
  · exact t.start_lt
  · exact t.changes_lt _ hm
  · omega

theorem take_rows_succ (h : t.items[k]? = some item) :
    t.rows.take (k + 1) = t.rows.take k ++ [item.row] := by
  have hr : t.rows[k]? = some item.row := by rw [rows, List.getElem?_map, h]; rfl
  rw [List.take_add_one, hr]
  rfl

end StreamTxn

namespace History

variable (H : History)

/-- Commit records are in order. -/
theorem sorted : H.txns.Pairwise fun a b => a.commitLsn < b.commitLsn :=
  H.ordered.imp fun {a _} h => a.lt_finish.trans_le h

/-- What follows the `m`-th transaction. -/
theorem finish_le {m : ℕ} {t : StreamTxn} {rest : List StreamTxn}
    (h : H.txns.drop m = t :: rest) : rest = H.txns.drop (m + 1) ∧ t ∈ H.txns.drop m ∧
      (∀ u ∈ rest, t.finish.data.lsn ≤ u.commitLsn) ∧
      ∀ u ∈ H.txns.drop m, t.commitLsn ≤ u.commitLsn := by
  have hp : (t :: rest).Pairwise fun a b => a.finish.data.lsn ≤ b.commitLsn := by
    rw [← h]; exact H.ordered.sublist (List.drop_sublist _ _)
  have hr := (List.pairwise_cons.1 hp).1
  refine ⟨?_, h ▸ List.mem_cons_self, hr, ?_⟩
  · rw [← List.drop_drop, h]; rfl
  · intro u hu
    rw [h] at hu
    rcases List.mem_cons.1 hu with rfl | hu
    · exact le_rfl
    · exact t.lt_finish.le.trans (hr u hu)

theorem mem_take_or_drop {t : StreamTxn} (h : t ∈ H.txns) (d : ℕ) :
    t ∈ H.txns.take d ∨ t ∈ H.txns.drop d := by
  rwa [← List.mem_append, List.take_append_drop]

end History

/-! ## Durable transactions -/

/-- All statements of the transaction are in one committed local transaction. -/
def Stored (committed : List (List Bytes)) (t : StreamTxn) : Prop :=
  ∃ l ∈ committed, t.rows <:+: l

instance (committed : List (List Bytes)) (t : StreamTxn) : Decidable (Stored committed t) :=
  inferInstanceAs (Decidable (∃ l ∈ committed, _))

theorem Stored.append {committed : List (List Bytes)} {t : StreamTxn} (h : Stored committed t)
    (more : List (List Bytes)) : Stored (committed ++ more) t := by
  obtain ⟨l, hl, hi⟩ := h
  exact ⟨l, List.mem_append_left _ hl, hi⟩

/-- **Acknowledged implies durable**: whenever the client let the server confirm a position, or
asked to stream from one, every transaction with a commit record before it was stored. -/
def AckedDurable (H : History) (s : System) : Prop :=
  ∀ ack ∈ s.acks, ∀ t ∈ H.txns, t.commitLsn < ack.1 → Stored ack.2 t

/-- A status message that is due at the commit message of a transaction that is not stored yet
does not fail. -/
def CommitFeedbackSafe (s : System) : StreamEvent → Prop
  | .data env _ => s.next.map StreamItem.kind = some .commit →
      feedbackDue s.receiver.handler env.now →
      (∃ t ∈ s.queue.head?, Stored s.receiver.db.committed t) ∨ env.send.ok = true
  | _ => True

instance (s : System) : ∀ e, Decidable (CommitFeedbackSafe s e)
  | .data _ _ => inferInstanceAs (Decidable (_ → _ → _))
  | .client _ | .keepalive _ _ _ _ => inferInstanceAs (Decidable True)

/-! ## The invariant -/

/-- All positions of a handler are at most `p`. -/
structure DecoderHandler.Below (h : DecoderHandler) (p : ℕ) : Prop where
  recvpos : h.recvpos ≤ p
  flushpos : h.flushpos ≤ p
  startpos : h.startpos ≤ p
  lastRecvpos : h.lastRecvpos ≤ p

theorem Kept.below {h h' : DecoderHandler} {p : ℕ} (hk : Kept h h') (hb : h.Below p) :
    h'.Below p where
  recvpos := hk.recvpos ▸ hb.recvpos
  flushpos := hk.flushpos ▸ hb.flushpos
  startpos := by rcases hk.startpos with e | e <;> rw [e]; exacts [hb.startpos, hb.recvpos]
  lastRecvpos := by rcases hk.lastRecvpos with e | e <;> rw [e]; exacts [hb.lastRecvpos, hb.recvpos]

theorem DecoderHandler.Below.raise {h : DecoderHandler} {p q : ℕ} (hb : h.Below p) (hq : q ≤ p) :
    DecoderHandler.Below { h with recvpos := q } p :=
  ⟨hq, hb.flushpos, hb.startpos, hb.lastRecvpos⟩

/-- The first `d` transactions are stored, and no position has passed the commit record of another
one. -/
structure Safe (H : History) (s : System) (d : ℕ) : Prop where
  stored : ∀ t ∈ H.txns.take d, Stored s.receiver.db.committed t
  below : ∀ t ∈ H.txns.drop d, s.receiver.handler.Below t.commitLsn ∧ s.confirmed ≤ t.commitLsn

/-- The stream is at one of the first `d` transactions or at the next; what was received of it is
the end of the open local transaction. -/
def AtMost (H : History) (s : System) (d : ℕ) : Prop :=
  ∃ m ≤ d, s.queue = H.txns.drop m ∧ (s.sent = 0 ∨ ∃ t rest rows, s.queue = t :: rest ∧
    s.sent < t.items.length ∧ s.receiver.db.current = some rows ∧ t.rows.take s.sent <:+ rows)

/-- The invariant. -/
def DurableInv (H : History) (s : System) : Prop :=
  AckedDurable H s ∧ (s.receiver.pc.live →
    ∃ d, Safe H s d ∧ (s.receiver.handler.conn = .streaming → AtMost H s d))

section
variable {H : History} {s s' : System} {d : ℕ}

/-- A position that has passed no other transaction may be declared durable. -/
theorem Safe.ack (hs : Safe H s d) {pos : ℕ} (hp : ∀ t ∈ H.txns.drop d, pos ≤ t.commitLsn) :
    ∀ t ∈ H.txns, t.commitLsn < pos → Stored s.receiver.db.committed t := by
  intro t ht hlt
  rcases H.mem_take_or_drop ht d with h | h
  · exact hs.stored t h
  · exact absurd (hp t h) (not_le.2 hlt)

theorem AckedDurable.snoc (ha : AckedDurable H s) {pos : ℕ}
    (hp : ∀ t ∈ H.txns, t.commitLsn < pos → Stored s.receiver.db.committed t)
    (h : s'.acks = s.acks ++ [(pos, s.receiver.db.committed)]) : AckedDurable H s' := by
  intro ack hack
  rw [h] at hack
  rcases List.mem_append.1 hack with hack | hack
  · exact ha ack hack
  · rw [List.mem_singleton.1 hack]
    exact hp

/-- What a status message confirms is durable. -/
theorem AckedDurable.fed (ha : AckedDurable H s) (hs : Safe H s d) (hf : System.Fed s s') :
    AckedDurable H s' ∧ ∀ t ∈ H.txns.drop d, s'.confirmed ≤ t.commitLsn := by
  rcases hf with ⟨h1, h2⟩ | ⟨h1, h2⟩
  · exact ⟨fun ack hack => ha ack (h1 ▸ hack), fun t ht => h2 ▸ (hs.below t ht).2⟩
  · refine ⟨ha.snoc (hs.ack fun t ht => (hs.below t ht).1.flushpos) h1, ?_⟩
    intro t ht
    rcases h2 with h2 | h2 <;> rw [h2]
    exacts [(hs.below t ht).2, (hs.below t ht).1.flushpos]

/-- More transactions are stored. -/
theorem Safe.mono (hs : Safe H s d) {t : StreamTxn} (ht : Stored s.receiver.db.committed t)
    {m : ℕ} {rest : List StreamTxn} (hm : H.txns.drop m = t :: rest) (hd : m ≤ d) :
    Safe H s (max d (m + 1)) := by
  rcases Nat.lt_or_ge m d with hlt | hge
  · rwa [Nat.max_eq_left hlt]
  · obtain rfl : m = d := Nat.le_antisymm hd hge
    rw [Nat.max_eq_right (Nat.le_succ m)]
    refine ⟨fun u hu => ?_, fun u hu => hs.below u ?_⟩
    · rw [List.take_add_one] at hu
      rcases List.mem_append.1 hu with hu | hu
      · exact hs.stored u hu
      · have : H.txns[m]? = some t := by rw [← List.head?_drop, hm]; rfl
        rw [this] at hu
        rwa [List.mem_singleton.1 hu]
    · rw [hm]
      rw [← (H.finish_le hm).1] at hu
      exact List.mem_cons_of_mem _ hu

/-- The positions after a step that did not pass a transaction. -/
theorem Safe.moved (hs : Safe H s d) {q : ℕ} (hq : ∀ t ∈ H.txns.drop d, q ≤ t.commitLsn)
    (hc : s'.receiver.db.committed = s.receiver.db.committed)
    (hk : Kept { s.receiver.handler with recvpos := q } s'.receiver.handler)
    (hconf : ∀ t ∈ H.txns.drop d, s'.confirmed ≤ t.commitLsn) : Safe H s' d where
  stored t ht := hc ▸ hs.stored t ht
  below t ht := ⟨hk.below ((hs.below t ht).1.raise (hq t ht)), hconf t ht⟩

/-- The message that arrives is one of the transaction at the head of the queue. -/
theorem next_cases {item : StreamItem} (h : s.next = some item) :
    ∃ t rest, s.queue = t :: rest ∧ t.items[s.sent]? = some item := by
  obtain ⟨t, ht, hi⟩ := Option.bind_eq_some_iff.1 h
  obtain ⟨rest, hr⟩ := List.head?_eq_some_iff.1 ht
  exact ⟨t, rest, hr, hi⟩

theorem putRow_change {kind : MsgKind} (h : kind ≠ .begin ∧ kind ≠ .commit) (l : TxLog Bytes)
    (row : Bytes) : putRow l kind row = l.insert row := by
  cases kind
  · exact absurd rfl h.1
  · exact absurd rfl h.2
  all_goals rfl

/-- The handler after a message at `q` is stored. -/
theorem below_stored {h h' : DecoderHandler} {p q : ℕ} (hk : Kept { h with recvpos := q } h')
    (hb : h.Below p) (hq : q ≤ p) : DecoderHandler.Below { h' with flushpos := h'.recvpos } p :=
  have hb' := hk.below (hb.raise hq)
  ⟨hb'.recvpos, hb'.recvpos, hb'.startpos, hb'.lastRecvpos⟩

/-- **A message before the last** is added to the local transaction, which the first one opens. -/
theorem putRow_open {t : StreamTxn} {item : StreamItem} {k : ℕ} {db : TxLog Bytes}
    (hi : t.items[k]? = some item) (hk : k + 1 < t.items.length)
    (hopen : k = 0 ∨ ∃ rows, db.current = some rows) :
    putRow db item.kind item.row = ⟨db.committed, some (db.current.getD [] ++ [item.row])⟩ := by
  rcases StreamTxn.item_cases hi with ⟨rfl, rfl⟩ | ⟨hpos, -, hm⟩ | ⟨-, hlast, -⟩
  · rw [t.start_kind, putRow, TxLog.insert_of_current rfl]
    rfl
  · obtain ⟨rows, hrows⟩ := hopen.resolve_left (by omega)
    rw [putRow_change (t.changes_kind _ hm), TxLog.insert_of_current hrows, hrows]
    rfl
  · omega

/-- **The commit message** commits the local transaction. -/
theorem putRow_commit {t : StreamTxn} {item : StreamItem} {k : ℕ} {db : TxLog Bytes}
    (hi : t.items[k]? = some item) (hk : k + 1 = t.items.length)
    {rows : List Bytes} (hrows : db.current = some rows) :
    item = t.finish ∧ t.rows = t.rows.take k ++ [item.row] ∧
      putRow db item.kind item.row = ⟨db.committed ++ [rows ++ [item.row]], none⟩ := by
  have hall : t.rows.take (k + 1) = t.rows := List.take_of_length_le (by simp [StreamTxn.rows, hk])
  rcases StreamTxn.item_cases hi with ⟨rfl, rfl⟩ | ⟨-, hlt, -⟩ | ⟨-, -, rfl⟩
  · simp at hk
  · omega
  · refine ⟨rfl, hall.symm.trans (t.take_rows_succ hi), ?_⟩
    rw [t.finish_kind, putRow, TxLog.insert_of_current hrows, TxLog.commit_of_current rfl]

/-- After a message before the last the stream is at the next message. -/
theorem System.advance_of_lt {t : StreamTxn} {rest : List StreamTxn} (hq : s.queue = t :: rest)
    (h : s.sent + 1 < t.items.length) : s.advance = { s with sent := s.sent + 1 } := by
  rw [System.advance, hq]
  exact if_pos h

/-- After the commit message it is at the next transaction. -/
theorem System.advance_of_last {t : StreamTxn} {rest : List StreamTxn} (hq : s.queue = t :: rest)
    (h : ¬ s.sent + 1 < t.items.length) : s.advance = { s with queue := rest, sent := 0 } := by
  rw [System.advance, hq]
  exact if_neg h

/-- What storing the next message does to the stream and to the local transaction. -/
inductive Stores (s s' : System) (item : StreamItem) : Prop
  | inside (t rest) (head : s.queue = t :: rest) (place : t.items[s.sent]? = some item)
      (lt : s.sent + 1 < t.items.length) (queue : s'.queue = s.queue ∧ s'.sent = s.sent + 1)
      (db : s'.receiver.db =
        ⟨s.receiver.db.committed, some (s.receiver.db.current.getD [] ++ [item.row])⟩)
  | last (t rest rows) (head : s.queue = t :: rest) (finish : item = t.finish)
      (current : s.receiver.db.current = some rows) (pos : 0 < s.sent)
      (group : t.rows = t.rows.take s.sent ++ [item.row]) (queue : s'.queue = rest ∧ s'.sent = 0)
      (db : s'.receiver.db = ⟨s.receiver.db.committed ++ [rows ++ [item.row]], none⟩)

/-- A message that is stored while the local transaction is open, unless it is the first. -/
theorem System.stores {item : StreamItem} (next : s.next = some item)
    (queue : s'.queue = s.advance.queue ∧ s'.sent = s.advance.sent)
    (hopen : s.sent = 0 ∨ ∃ rows, s.receiver.db.current = some rows)
    (hdb : s'.receiver.db = putRow s.receiver.db item.kind item.row) : Stores s s' item := by
  obtain ⟨t, rest, hq, hi⟩ := next_cases next
  by_cases hlt : s.sent + 1 < t.items.length
  · rw [System.advance_of_lt hq hlt] at queue
    exact .inside t rest hq hi hlt queue (hdb.trans (putRow_open hi hlt hopen))
  · have hlast : s.sent + 1 = t.items.length := by
      have := (List.getElem?_eq_some_iff.1 hi).1
      omega
    have hpos : 0 < s.sent := by rw [StreamTxn.length_items] at hlast; omega
    obtain ⟨rows, hrows⟩ := hopen.resolve_left hpos.ne'
    obtain ⟨hfinish, hgroup, hput⟩ := putRow_commit hi hlast hrows
    rw [System.advance_of_last hq hlt] at queue
    exact .last t rest rows hq hfinish hrows hpos hgroup queue (hdb.trans hput)

/-- A message other than the last lies before every commit record that is still to come. -/
theorem History.lsn_le {m : ℕ} {t : StreamTxn} {rest : List StreamTxn} {item : StreamItem} {k : ℕ}
    (hdrop : H.txns.drop m = t :: rest) (hm : m ≤ d) (hi : t.items[k]? = some item)
    (hk : k + 1 < t.items.length) : ∀ u ∈ H.txns.drop d, item.data.lsn ≤ u.commitLsn := by
  intro u hu
  obtain ⟨-, -, -, hle⟩ := H.finish_le hdrop
  exact (t.lsn_lt hi hk).le.trans (hle u (List.drop_subset_drop_left _ hm hu))

/-- The commit message lies before those of the other transactions. -/
theorem History.finish_lsn_le {m : ℕ} {t : StreamTxn} {rest : List StreamTxn}
    (hdrop : H.txns.drop m = t :: rest) :
    ∀ u ∈ H.txns.drop (max d (m + 1)), t.finish.data.lsn ≤ u.commitLsn := by
  intro u hu
  obtain ⟨hrest, -, hfin, -⟩ := H.finish_le hdrop
  exact hfin u (hrest ▸ List.drop_subset_drop_left _ (Nat.le_max_right _ _) hu)

/-- **A message that is stored** leaves the transactions safe, and the stream at most at the one
after them. -/
theorem Safe.stores (hs : Safe H s d) (ha : AtMost H s d) {item : StreamItem}
    (hst : Stores s s' item) {h' : DecoderHandler}
    (kept : Kept { s.receiver.handler with recvpos := item.data.lsn } h')
    (hh : s'.receiver.handler = { h' with flushpos := h'.recvpos })
    (hconf : ∀ t ∈ H.txns.drop d, s'.confirmed ≤ t.commitLsn) :
    ∃ d, Safe H s' d ∧ AtMost H s' d := by
  obtain ⟨m, hm, hqueue, hsent⟩ := ha
  cases hst with
  | inside t rest head place lt queue db =>
    have hlsn := History.lsn_le (hqueue ▸ head) hm place lt
    refine ⟨d, ⟨fun u hu => ?_, fun u hu => ⟨?_, hconf u hu⟩⟩, ?_⟩
    · rw [db]
      exact hs.stored u hu
    · rw [hh]
      exact below_stored kept (hs.below u hu).1 (hlsn u hu)
    · rw [AtMost, queue.1, queue.2, db]
      refine ⟨m, hm, hqueue, Or.inr ⟨t, rest, _, head, lt, rfl, ?_⟩⟩
      rw [t.take_rows_succ place]
      rcases hsent with h0 | ⟨t', rest', rows, head', -, hcur, pre, hpre⟩
      · rw [h0]
        exact List.suffix_append _ _
      · obtain ⟨rfl, rfl⟩ := List.cons.inj (head.symm.trans head')
        rw [hcur, Option.getD_some, ← hpre, List.append_assoc]
        exact List.suffix_append _ _
  | last t rest rows head finish current pos group queue db =>
    subst finish
    have hdrop : H.txns.drop m = t :: rest := hqueue ▸ head
    have hsub : H.txns.drop (max d (m + 1)) ⊆ H.txns.drop d :=
      List.drop_subset_drop_left _ (Nat.le_max_left _ _)
    have hs' : Safe H { s with receiver := { s.receiver with db := s'.receiver.db } } d :=
      ⟨fun u hu => by rw [db]; exact (hs.stored u hu).append _, hs.below⟩
    have hstored : Stored s'.receiver.db.committed t := by
      -- the whole group is the end of the local transaction
      obtain ⟨t', rest', rows', head', -, hcur, pre, hpre⟩ := hsent.resolve_left pos.ne'
      obtain ⟨rfl, rfl⟩ := List.cons.inj (head.symm.trans head')
      obtain rfl := Option.some.inj (current.symm.trans hcur)
      refine ⟨_, by rw [db]; exact List.mem_append_right _ (List.mem_singleton_self _), ?_⟩
      rw [group, ← hpre, List.append_assoc]
      exact (List.suffix_append _ _).isInfix
    refine ⟨max d (m + 1), ⟨(hs'.mono hstored hdrop hm).stored, fun u hu => ⟨?_, hconf u (hsub hu)⟩⟩,
      ?_⟩
    · rw [hh]
      exact below_stored kept (hs.below u (hsub hu)).1 (History.finish_lsn_le hdrop u hu)
    · rw [AtMost, queue.1, queue.2]
      exact ⟨m + 1, Nat.le_max_right _ _, (H.finish_le hdrop).1, Or.inl rfl⟩

/-- **A message whose status message fails** leaves the transactions safe, if the commit message
is one of a transaction that is stored. -/
theorem Safe.drops (hs : Safe H s d) (ha : AtMost H s d) {item : StreamItem}
    (next : s.next = some item)
    (hcommit : item.kind = .commit → ∃ t ∈ s.queue.head?, Stored s.receiver.db.committed t)
    (hdb : s'.receiver.db = s.receiver.db)
    (kept : Kept { s.receiver.handler with recvpos := item.data.lsn } s'.receiver.handler)
    (hconf : ∀ t ∈ H.txns.drop d, s'.confirmed ≤ t.commitLsn) : ∃ d, Safe H s' d := by
  obtain ⟨m, hm, hqueue, -⟩ := ha
  obtain ⟨t, rest, hq, hi⟩ := next_cases next
  have hdrop : H.txns.drop m = t :: rest := hqueue ▸ hq
  have hc : s'.receiver.db.committed = s.receiver.db.committed := by rw [hdb]
  by_cases hlt : s.sent + 1 < t.items.length
  · exact ⟨d, hs.moved (History.lsn_le hdrop hm hi hlt) hc kept hconf⟩
  · obtain rfl : item = t.finish := by
      rcases StreamTxn.item_cases hi with ⟨h0, -⟩ | ⟨-, h, -⟩ | ⟨-, -, h⟩
      · rw [StreamTxn.length_items] at hlt; omega
      · exact absurd h hlt
      · exact h
    obtain ⟨t', ht', hstored⟩ := hcommit t.finish_kind
    rw [hq] at ht'
    obtain rfl := Option.some.inj ht'
    exact ⟨_, (hs.mono hstored hdrop hm).moved (History.finish_lsn_le hdrop) hc kept fun u hu =>
      hconf u (List.drop_subset_drop_left _ (Nat.le_max_left _ _) hu)⟩

/-- **One step keeps the invariant.** -/
theorem durableInv_step {e : StreamEvent} (hI : DurableInv H s) (hok : CommitFeedbackSafe s e)
    (h : s.step H e = some s') : DurableInv H s' := by
  have hlive := System.live_of_step h
  obtain ⟨d, hs, hst⟩ := hI.2 hlive
  cases System.step_cases h with
  | quiet kept fed queue committed db =>
    obtain ⟨hacks, hconf⟩ := hI.1.fed hs fed
    refine ⟨hacks, fun hl => ⟨d, ?_, fun hc => ?_⟩⟩
    · exact hs.moved (fun t ht => (hs.below t ht).1.recvpos) committed kept hconf
    · rw [AtMost, queue.1, queue.2, db hl]
      exact hst (kept.conn hc)
  | down db handler server =>
    refine ⟨fun ack hack => hI.1 ack (server.1 ▸ hack), fun hl => ⟨d, ?_, fun hc => ?_⟩⟩
    · refine hs.moved (fun t ht => (hs.below t ht).1.recvpos) (by rw [db]) ?_
        (fun t ht => server.2 ▸ (hs.below t ht).2)
      rw [handler hl]
      exact (Kept.refl _).setConn nofun
    · rw [handler hl] at hc
      cases hc
  | @start outcome _ db handler acks confirmed queue =>
    refine ⟨hI.1.snoc (hs.ack fun t ht => (hs.below t ht).1.startpos) acks,
      fun _ => ⟨d, ⟨?_, fun t ht => ?_⟩, fun hc => ?_⟩⟩
    · rw [db]; exact hs.stored
    · rw [handler, confirmed]
      obtain ⟨hb, hcf⟩ := hs.below t ht
      exact ⟨⟨hb.recvpos, hb.flushpos, hb.startpos, hb.lastRecvpos⟩, hcf⟩
    · -- the server goes back to a transaction that is stored, or to the first that is not
      have ho : outcome = .started := by
        by_contra ho
        rw [handler, if_neg ho] at hc
        cases hc
      obtain ⟨hsent, hqueue⟩ := queue ho
      refine ⟨_, OrderedLog.length_before_le ?_,
        hqueue.trans (OrderedLog.since_eq_drop H.sorted), Or.inl hsent⟩
      intro t ht
      exact max_le (hs.below t ht).1.startpos (hs.below t ht).2
  | data item next conn fed queue h' kept conn' result =>
    obtain ⟨hacks, hconf⟩ := hI.1.fed hs fed
    have ha := hst conn
    refine ⟨hacks, ?_⟩
    intro hl
    rcases result with ⟨hr, hdue, hnok⟩ | ⟨hd, -⟩ | hr
    · -- the transaction is stored already, since the status message failed
      have hcommit : item.kind = .commit →
          ∃ t ∈ s.queue.head?, Stored s.receiver.db.committed t := fun hk =>
        (hok (by rw [next, ← hk]; rfl) hdue).resolve_right (by simp [hnok])
      obtain ⟨d, hs'⟩ := hs.drops ha next hcommit (by rw [hr]; rfl)
        (by rw [hr]; exact kept.setConn nofun) hconf
      refine ⟨d, hs', ?_⟩
      intro hc
      rw [hr] at hc
      cases hc
    · exact absurd hl hd
    · have hopen : s.sent = 0 ∨ ∃ rows, s.receiver.db.current = some rows := by
        obtain ⟨-, -, -, hsent⟩ := ha
        exact hsent.imp_right fun ⟨_, _, rows, _, _, hcur, _⟩ => ⟨rows, hcur⟩
      obtain ⟨d, hs', ha'⟩ := hs.stores ha (System.stores next queue hopen (by rw [hr]; rfl)) kept
        (by rw [hr]; rfl) hconf
      exact ⟨d, hs', fun _ => ha'⟩
  | keepalive bound conn fed queue db kept =>
    obtain ⟨hacks, hconf⟩ := hI.1.fed hs fed
    obtain ⟨m, hm, hqueue, hsent⟩ := hst conn
    refine ⟨hacks, fun _ => ⟨d, hs.moved (fun t ht => ?_) (by rw [db]) kept hconf, fun _ => ?_⟩⟩
    · refine max_le (bound t ?_) (hs.below t ht).1.recvpos
      rw [hqueue]
      exact List.drop_subset_drop_left _ hm ht
    · rw [AtMost, queue.1, queue.2, db]
      exact ⟨m, hm, hqueue, hsent⟩

theorem durableInv_init (H : History) : DurableInv H (.init H) := by
  refine ⟨fun ack hack => absurd hack List.not_mem_nil, fun _ => ⟨0, ⟨?_, fun t ht => ?_⟩, nofun⟩⟩
  · simp
  · exact ⟨⟨Nat.zero_le _, Nat.zero_le _, Nat.zero_le _, Nat.zero_le _⟩, H.slot_le t ht⟩

/-- **Acknowledged implies durable** in every run in which no status message that is due at the
commit message of a transaction that is not stored yet fails. -/
theorem ackedDurable_of_run {es : List StreamEvent}
    (hm : StepMachine.Meets (System.step H) CommitFeedbackSafe (.init H) es)
    (hr : StepMachine.run (System.step H) (.init H) es = some s) : AckedDurable H s :=
  (StepMachine.run_invariant (fun _ _ _ hI hok h => durableInv_step hI hok h)
    (durableInv_init H) hm hr).1

end

/-! ## An INSERT and a DELETE -/

/-- A row is inserted into the table `d` of the tests; the commit record is at 20 and ends at 30. -/
def insertTxn : SourceTxn fun _ => false where
  txn := ⟨20, 30, 0, 7⟩
  firstLsn := 10
  commitLsn := 20
  changes := [⟨15, tableD, .insert (newD .null),
    ascii "INSERT INTO test_case.d (a,c,d) VALUES(5, null, 3);", by decide, 0, by decide⟩]
  first_lt := by decide
  changes_lt := by decide
  lt_end := by decide

/-- It is deleted; the commit record is at 50 and ends at 60. -/
def deleteTxn : SourceTxn fun _ => false where
  txn := ⟨50, 60, 0, 8⟩
  firstLsn := 40
  commitLsn := 50
  changes := [⟨45, tableD, .delete (some (newD .null)),
    ascii "DELETE FROM test_case.d WHERE a=5 AND d=3;", by decide, 0, by decide⟩]
  first_lt := by decide
  changes_lt := by decide
  lt_end := by decide

def insertDelete : History where
  txns := [insertTxn.stream, deleteTxn.stream]
  slot := 0
  ordered := by simp [insertTxn, deleteTxn, SourceTxn.stream, pluginItem, XLogData.lsn]
  slot_le := fun _ _ => Nat.zero_le _

/-- The clock at `now`, and a send that fails or succeeds. -/
def envAt (now : ℤ) (ok : Bool) : FrameEnv := ⟨fun _ => 0, fun _ => 0, now, ⟨ok, ok⟩⟩

/-- The next message arrives. -/
def received (env : FrameEnv) : List StreamEvent :=
  [.client (.wake 0 ⟨true, true⟩), .data env ⟨true, true, true⟩]

/-- The stream is received up to the first commit message, at which a status message is due. -/
def firstRun (ok : Bool) : List StreamEvent :=
  [.client (.connect .started)] ++ received (envAt 0 true) ++ received (envAt 0 true) ++
    received (envAt 10000000 ok)

/-- Another one is due after the commit; the connection is lost, and the stream is resumed. -/
def resumedRun : List StreamEvent :=
  firstRun true ++ [.client (.wake 0 ⟨true, true⟩), .client (.noData .timeout),
    .client (.wake 20000000 ⟨true, true⟩), .client .readFailed, .client (.connect .started)]

/-- The group of the first transaction. -/
def insertGroup : List Bytes :=
  [ascii "begin;", ascii "INSERT INTO test_case.d (a,c,d) VALUES(5, null, 3);", ascii "commit;"]

/-- The transaction is confirmed, and the stream resumed behind it, when it is stored. -/
theorem ackedDurable_insertDelete :
    ∃ s, StepMachine.run (System.step insertDelete) (.init insertDelete) resumedRun = some s ∧
      s.acks = [(0, []), (15, []), (30, [insertGroup]), (30, [insertGroup])] ∧
      AckedDurable insertDelete s := by
  have hr : (StepMachine.run (System.step insertDelete) (.init insertDelete) resumedRun).map System.acks =
      some [(0, []), (15, []), (30, [insertGroup]), (30, [insertGroup])] := by decide +kernel
  obtain ⟨s, hs, ha⟩ := Option.map_eq_some_iff.1 hr
  exact ⟨s, hs, ha, ackedDurable_of_run (by decide +kernel) hs⟩

/-- The feedback at the commit message fails, and the stream is resumed past the transaction. -/
theorem lostCommit_insertDelete :
    ∃ s, StepMachine.run (System.step insertDelete) (.init insertDelete)
        (firstRun false ++ [.client (.connect .started)]) = some s ∧
      s.acks = [(0, []), (30, [])] ∧ ¬ AckedDurable insertDelete s := by
  have hr : (StepMachine.run (System.step insertDelete) (.init insertDelete)
      (firstRun false ++ [.client (.connect .started)])).map System.acks =
        some [(0, []), (30, [])] := by decide +kernel
  obtain ⟨s, hs, ha⟩ := Option.map_eq_some_iff.1 hr
  refine ⟨s, hs, ha, ?_⟩
  intro h
  obtain ⟨l, hl, -⟩ := h (30, []) (by rw [ha]; simp) insertTxn.stream List.mem_cons_self (by decide)
  cases hl

end RdsDbsync
