/-
  The frames that `exec_logical_decoder` rejects: which bytes of a frame are read, and
  what becomes of the positions.

  `frameHandled_iff`: the keepalive branch reads the position before it checks the length,
  and both branches set `recvpos` before the frame is known to be good.
-/
import RdsDbsync.FeedbackOrder
import RdsDbsync.Format

namespace RdsDbsync

open Bytes

/-! ## Frames -/

namespace Frame

variable (f : Frame)

/-- The type of a frame. -/
def typeByte : UInt8 := f.data.head?.getD 255

/-- The 64-bit integer at a position. -/
def int64At (i : ℕ) : ℕ := decodeBE ((f.data.drop i).take 8)

/-- The payload of a data frame. -/
def payload : Bytes := f.data.drop (1 + 8 + 8 + 8)

/-- The frame is rejected: a header that is too short, a payload that no action starts, or another
type. -/
def Rejected : Prop :=
  f.typeByte = ch 'k' ∧ f.data.length < 1 + 8 + 8 + 1 ∨
    f.typeByte = ch 'w' ∧ (f.data.length < 1 + 8 + 8 + 8 + 1 ∨ ¬ StartsWithAction f.payload) ∨
    f.typeByte ≠ ch 'k' ∧ f.typeByte ≠ ch 'w'

/-- The indices of the bytes that a reader has passed. -/
def span (s s' : StringInfo) : List ℕ :=
  List.range' (f.data.length - s.unread.length) (s.unread.length - s'.unread.length)

/-- The indices that `exec_logical_decoder` reads.  The readers of `pqformat.c` stop at the end of
the frame; `copybuf[0]` is in the message about an unknown type. -/
def reads : List ℕ :=
  let s : StringInfo := ⟨f.data, f.stale⟩
  let (c, s₁) := pqGetmsgbyte s
  f.span s s₁ ++
    if c = ch 'k' then
      List.range' 1 8 ++ if f.data.length < 1 + 8 + 8 + 1 then [] else [1 + 8 + 8]
    else if c = ch 'w' then
      if f.data.length < 1 + 8 + 8 + 8 + 1 then []
      else
        let (_, s₂) := pqGetmsgint64 s₁
        let (_, s₂) := pqGetmsgint64 s₂
        let (_, s₂) := pqGetmsgint64 s₂
        match bdrProcessRemoteAction s₂ {} with
        | .ok (_, s₃, _) => f.span s₁ s₂ ++ f.span s₂ s₃
        | .error _ => f.span s₁ ⟨[], s₂.stale⟩
    else [0]

end Frame

/-- The four positions of two handlers are the same. -/
structure SamePositions (h h' : DecoderHandler) : Prop where
  recvpos : h'.recvpos = h.recvpos
  flushpos : h'.flushpos = h.flushpos
  startpos : h'.startpos = h.startpos
  lastRecvpos : h'.lastRecvpos = h.lastRecvpos

/-- **A frame is handled with care**: nothing is read at or beyond its end, and the positions are
what they were if it is rejected. -/
def FrameHandled (h : DecoderHandler) (f : Frame) : Prop :=
  (∀ i ∈ f.reads, i < f.data.length) ∧ (f.Rejected → SamePositions h (execFrame h f).2.1)

/-- The position that the code takes from a keepalive lies in the frame and does not raise
`recvpos` if the frame is too short; the one that it takes from a data frame whose payload it
rejects is `recvpos` already. -/
structure FrameHarmless (h : DecoderHandler) (f : Frame) : Prop where
  data : f.data ≠ []
  keepalive : f.typeByte = ch 'k' →
    1 + 8 ≤ f.data.length ∧ (f.data.length < 1 + 8 + 8 + 1 → f.int64At 1 ≤ h.recvpos)
  payload : f.typeByte = ch 'w' → 1 + 8 + 8 + 8 + 1 ≤ f.data.length →
    ¬ StartsWithAction f.payload → max (f.int64At 1) (f.int64At 9) = h.recvpos

/-! ## Reading a frame -/

section
variable {h : DecoderHandler} {f : Frame}

theorem pqGetmsgbyte_frame (f : Frame) :
    pqGetmsgbyte ⟨f.data, f.stale⟩ = (f.typeByte, ⟨f.data.drop 1, f.stale⟩) := by
  rw [Frame.typeByte]
  rcases f.data with _ | ⟨c, r⟩ <;> rfl

/-- The 64-bit integer that is there. -/
theorem pqGetmsgint64_of_length {p : Bytes} (st : ℕ → UInt32) (hlen : 8 ≤ p.length) :
    (pqGetmsgint64 ⟨p, st⟩).1.toNat = decodeBE (p.take 8) ∧
      (pqGetmsgint64 ⟨p, st⟩).2 = ⟨p.drop 8, st⟩ := by
  have h4 : ¬ p.length < 4 := by omega
  have h4' : ¬ (p.drop 4).length < 4 := by rw [List.length_drop]; omega
  have hsplit : p.take 8 = p.take 4 ++ (p.drop 4).take 4 := by
    rw [← List.take_append_drop 4 (p.take 8), List.take_take, List.drop_take]
    rfl
  have hlow : ((p.drop 4).take 4).length = 4 := by simp; omega
  have hvalue : decodeBE (p.take 4) * 2 ^ 32 + decodeBE ((p.drop 4).take 4) =
      decodeBE (p.take 8) := by
    rw [hsplit, decodeBE_append, hlow]
    norm_num
  have hlt := decodeBE_lt (p.take 8)
  rw [List.length_take, min_eq_left hlen] at hlt
  simp only [pqGetmsgint64, pqCopymsgbytes, if_neg h4, if_neg h4', List.drop_drop, hvalue]
  refine ⟨?_, trivial⟩
  rw [UInt64.toNat_ofNat']
  exact Nat.mod_eq_of_lt hlt

/-- The header of a data frame. -/
theorem pqGetmsgint64_header (hlen : ¬ f.data.length < 1 + 8 + 8 + 8 + 1) :
    ∃ start finish sendTime : UInt64, start.toNat = f.int64At 1 ∧ finish.toNat = f.int64At 9 ∧
      pqGetmsgint64 ⟨f.data.drop 1, f.stale⟩ = (start, ⟨f.data.drop 9, f.stale⟩) ∧
      pqGetmsgint64 ⟨f.data.drop 9, f.stale⟩ = (finish, ⟨f.data.drop 17, f.stale⟩) ∧
      pqGetmsgint64 ⟨f.data.drop 17, f.stale⟩ = (sendTime, ⟨f.payload, f.stale⟩) := by
  have hread : ∀ i, i + 8 ≤ f.data.length →
      ∃ v : UInt64, v.toNat = f.int64At i ∧
        pqGetmsgint64 ⟨f.data.drop i, f.stale⟩ = (v, ⟨f.data.drop (i + 8), f.stale⟩) := by
    intro i hi
    have hlen : 8 ≤ (f.data.drop i).length := by rw [List.length_drop]; omega
    obtain ⟨hv, hs⟩ := pqGetmsgint64_of_length f.stale hlen
    rw [List.drop_drop] at hs
    exact ⟨_, hv, Prod.ext rfl hs⟩
  obtain ⟨start, hstart, h1⟩ := hread 1 (by omega)
  obtain ⟨finish, hfinish, h2⟩ := hread 9 (by omega)
  obtain ⟨sendTime, -, h3⟩ := hread 17 (by omega)
  exact ⟨start, finish, sendTime, hstart, hfinish, h1, h2, h3⟩

/-- The message of a data frame that is long enough. -/
theorem execXLogData_ok (h : DecoderHandler) (hlen : ¬ f.data.length < 1 + 8 + 8 + 8 + 1)
    {rc : Bool} {s : StringInfo} {msg : AliPgDecodeMessage}
    (hd : bdrProcessRemoteAction ⟨f.payload, f.stale⟩ {} = .ok (rc, s, msg)) :
    execXLogData h f ⟨f.data.drop 1, f.stale⟩ =
      let h := { h with recvpos := max (f.int64At 1) (f.int64At 9) }
      if rc then
        (if (timedFeedback h f.now f.send).1 then .message msg else .error,
          (timedFeedback h f.now f.send).2)
      else (.error, h, []) := by
  obtain ⟨start, finish, sendTime, hstart, hfinish, h1, h2, h3⟩ := pqGetmsgint64_header hlen
  rw [execXLogData, if_neg hlen, h1]
  dsimp only
  rw [h2]
  dsimp only
  rw [h3]
  dsimp only
  rw [hd, hstart, hfinish]

/-- The position of a data frame whose payload is not decoded. -/
theorem execXLogData_fault (h : DecoderHandler) (hlen : ¬ f.data.length < 1 + 8 + 8 + 8 + 1)
    {fault : Fault} (hd : bdrProcessRemoteAction ⟨f.payload, f.stale⟩ {} = .error fault) :
    execXLogData h f ⟨f.data.drop 1, f.stale⟩ =
      (.fault fault, { h with recvpos := max (f.int64At 1) (f.int64At 9) }, []) := by
  obtain ⟨start, finish, sendTime, hstart, hfinish, h1, h2, h3⟩ := pqGetmsgint64_header hlen
  rw [execXLogData, if_neg hlen, h1]
  dsimp only
  rw [h2]
  dsimp only
  rw [h3]
  dsimp only
  rw [hd, hstart, hfinish]

theorem feRecvint64_of_length (hlen : 9 ≤ f.data.length) : f.feRecvint64 1 = f.int64At 1 := by
  rw [Frame.feRecvint64, Frame.int64At]
  congr 1
  refine List.ext_getElem? fun i => ?_
  rw [List.getElem?_map, List.getElem?_take, List.getElem?_drop]
  by_cases hi : i < 8
  · rw [List.getElem?_range' hi, if_pos hi, Option.map_some, one_mul, Frame.copybuf,
      List.getElem?_eq_getElem (by omega : 1 + i < f.data.length), Option.getD_some]
  · rw [if_neg hi, List.getElem?_eq_none (by rw [List.length_range']; omega), Option.map_none]

/-- What the readers pass lies in the frame. -/
theorem lt_of_mem_span {s s' : StringInfo} (hs : s.unread.length ≤ f.data.length) {i : ℕ}
    (hi : i ∈ f.span s s') : i < f.data.length := by
  rw [Frame.span, List.mem_range'_1] at hi
  omega

/-! ## Rejected frames -/

/-- A frame that is rejected is not answered, and the work on it ends at the label `error`. -/
theorem execFrame_rejected (h : DecoderHandler) (hr : f.Rejected) :
    (execFrame h f).1 = .error ∧ (execFrame h f).2.2 = [] ∧
      (execFrame h f).2.1 =
        if f.typeByte = ch 'k' then { h with recvpos := max (f.feRecvint64 1) h.recvpos }
        else if f.typeByte = ch 'w' ∧ 1 + 8 + 8 + 8 + 1 ≤ f.data.length then
          { h with recvpos := max (f.int64At 1) (f.int64At 9) }
        else h := by
  have hne : ch 'w' ≠ ch 'k' := by decide
  rw [execFrame, pqGetmsgbyte_frame]
  dsimp only
  rcases hr with ⟨hk, hlen⟩ | ⟨hw, hbad⟩ | ⟨hk, hw⟩
  · rw [if_pos hk, if_pos hk, execKeepalive]
    simp only [if_pos hlen, and_self]
  · rw [hw, if_neg hne, if_pos rfl, if_neg hne]
    by_cases hlen : f.data.length < 1 + 8 + 8 + 8 + 1
    · rw [execXLogData, if_pos hlen, if_neg fun h => absurd hlen (not_lt.2 h.2)]
      exact ⟨rfl, rfl, rfl⟩
    · rw [if_pos ⟨rfl, not_lt.1 hlen⟩]
      obtain ⟨s, hd⟩ := bdrProcessRemoteAction_noAction (hbad.resolve_left hlen) f.stale
      rw [execXLogData_ok h hlen hd]
      exact ⟨rfl, rfl, rfl⟩
  · rw [if_neg hk, if_neg hw, if_neg hk, if_neg fun h => hw h.1]
    exact ⟨rfl, rfl, rfl⟩

/-- **These are the frames that the code rejects**: on a stream no other frame ends at the label
`error` without a status message that failed. -/
theorem rejected_iff (hc : h.conn = .streaming) :
    (execFrame h f).1 = .error ∧ (execFrame h f).2.2 = [] ↔ f.Rejected := by
  refine ⟨fun he => ?_, fun hr => ⟨(execFrame_rejected h hr).1, (execFrame_rejected h hr).2.1⟩⟩
  by_contra hr
  rw [execFrame, pqGetmsgbyte_frame] at he
  dsimp only at he
  by_cases hk : f.typeByte = ch 'k'
  · have hlen : ¬ f.data.length < 1 + 8 + 8 + 1 := fun hlen => hr (Or.inl ⟨hk, hlen⟩)
    rw [if_pos hk, execKeepalive] at he
    dsimp only at he
    rw [if_neg hlen] at he
    split_ifs at he with hreply hsent
    · exact he.1
    · rw [sendFeedback_streaming (by exact hc)] at he
      cases he.2
    · exact he.1
  rw [if_neg hk] at he
  by_cases hw : f.typeByte = ch 'w'
  · have hlen : ¬ f.data.length < 1 + 8 + 8 + 8 + 1 :=
      fun hlen => hr (Or.inr (Or.inl ⟨hw, Or.inl hlen⟩))
    have haction : StartsWithAction f.payload :=
      not_not.1 fun hbad => hr (Or.inr (Or.inl ⟨hw, Or.inr hbad⟩))
    rw [if_pos hw] at he
    rcases hd : bdrProcessRemoteAction ⟨f.payload, f.stale⟩ {} with fault | ⟨rc, s, msg⟩
    · rw [execXLogData_fault h hlen hd] at he
      exact FrameResult.noConfusion he.1
    · obtain rfl := bdrProcessRemoteAction_action haction hd
      rw [execXLogData_ok h hlen hd] at he
      dsimp only at he
      rw [if_pos rfl] at he
      generalize hpos : { h with recvpos := max (f.int64At 1) (f.int64At 9) } = h' at he
      have hc' : h'.conn = .streaming := by rw [← hpos]; exact hc
      by_cases hdue : feedbackDue h' f.now
      · rw [timedFeedback_of_due hc' hdue] at he
        cases he.2
      · rw [timedFeedback_of_not_due h' hdue, if_pos rfl] at he
        exact FrameResult.noConfusion he.1
  · exact hr (Or.inr (Or.inr ⟨hk, hw⟩))

theorem samePositions_recvpos {pos : ℕ} :
    SamePositions h { h with recvpos := pos } ↔ pos = h.recvpos :=
  ⟨fun hs => hs.recvpos, fun hp => ⟨hp, rfl, rfl, rfl⟩⟩

/-- A frame with a type is not empty. -/
theorem length_pos_of_typeByte {c : Char} (hc : f.typeByte = ch c) (hne : ch c ≠ 255) :
    0 < f.data.length := by
  rw [List.length_pos_iff]
  intro h0
  refine hne ?_
  rw [← hc, Frame.typeByte, h0]
  rfl

/-- The type, and the position up to index 8 before the length is checked. -/
theorem reads_keepalive (hk : f.typeByte = ch 'k') :
    (∀ i ∈ f.reads, i < f.data.length) ↔ 1 + 8 ≤ f.data.length := by
  rw [Frame.reads, pqGetmsgbyte_frame]
  dsimp only
  rw [List.forall_mem_append, if_pos hk]
  constructor
  · rintro ⟨-, hall⟩
    exact hall 8 (List.mem_append_left _ (List.mem_range'_1.2 (by omega)))
  · intro hlen
    refine ⟨fun i hi => lt_of_mem_span le_rfl hi, ?_⟩
    intro i hi
    rcases List.mem_append.1 hi with hi | hi
    · rw [List.mem_range'_1] at hi
      omega
    · split_ifs at hi with hshort
      · cases hi
      · rw [List.mem_singleton.1 hi]
        omega

/-- Of a data frame only what lies in it is read. -/
theorem reads_dataFrame (hw : f.typeByte = ch 'w') : ∀ i ∈ f.reads, i < f.data.length := by
  have hne : ¬ f.typeByte = ch 'k' := by rw [hw]; decide
  have hle (n : ℕ) : (f.data.drop n).length ≤ f.data.length := by
    rw [List.length_drop]
    exact Nat.sub_le _ _
  rw [Frame.reads, pqGetmsgbyte_frame]
  dsimp only
  rw [List.forall_mem_append, if_neg hne, if_pos hw]
  refine ⟨fun i hi => lt_of_mem_span le_rfl hi, ?_⟩
  by_cases hlen : f.data.length < 1 + 8 + 8 + 8 + 1
  · rw [if_pos hlen]
    intro i hi
    cases hi
  · rw [if_neg hlen]
    obtain ⟨start, finish, sendTime, -, -, h1, h2, h3⟩ := pqGetmsgint64_header hlen
    rw [h1]
    dsimp only
    rw [h2]
    dsimp only
    rw [h3]
    dsimp only
    rcases bdrProcessRemoteAction ⟨f.payload, f.stale⟩ {} with fault | ⟨rc, s, msg⟩
    · intro i hi
      exact lt_of_mem_span (hle _) hi
    · intro i hi
      rcases List.mem_append.1 hi with hi | hi
      · exact lt_of_mem_span (hle _) hi
      · exact lt_of_mem_span (hle _) hi

/-- The message about an unknown type quotes `copybuf[0]`. -/
theorem reads_unknown (hk : f.typeByte ≠ ch 'k') (hw : f.typeByte ≠ ch 'w') :
    (∀ i ∈ f.reads, i < f.data.length) ↔ 0 < f.data.length := by
  rw [Frame.reads, pqGetmsgbyte_frame]
  dsimp only
  rw [List.forall_mem_append, if_neg hk, if_neg hw]
  constructor
  · rintro ⟨-, hall⟩
    exact hall 0 (List.mem_singleton_self 0)
  · intro hpos
    refine ⟨fun i hi => lt_of_mem_span le_rfl hi, ?_⟩
    intro i hi
    rw [List.mem_singleton.1 hi]
    exact hpos

/-- **What is read** lies in the frame, unless it is empty or a keepalive whose position is cut. -/
theorem reads_lt_iff : (∀ i ∈ f.reads, i < f.data.length) ↔
    f.data ≠ [] ∧ (f.typeByte = ch 'k' → 1 + 8 ≤ f.data.length) := by
  rw [← List.length_pos_iff]
  by_cases hk : f.typeByte = ch 'k'
  · rw [reads_keepalive hk]
    constructor
    · intro hlen
      exact ⟨by omega, fun _ => hlen⟩
    · rintro ⟨-, hlen⟩
      exact hlen hk
  by_cases hw : f.typeByte = ch 'w'
  · have hpos := length_pos_of_typeByte hw (by decide)
    exact iff_of_true (reads_dataFrame hw) ⟨hpos, fun h => absurd h hk⟩
  · rw [reads_unknown hk hw]
    constructor
    · intro hpos
      exact ⟨hpos, fun h => absurd h hk⟩
    · rintro ⟨hpos, -⟩
      exact hpos

/-- **A frame is handled with care** exactly where the position that is taken from it before the
checks does no harm. -/
theorem frameHandled_iff (h : DecoderHandler) (f : Frame) :
    FrameHandled h f ↔ FrameHarmless h f := by
  have hne : ch 'w' ≠ ch 'k' := by decide
  rw [FrameHandled, reads_lt_iff]
  constructor
  · rintro ⟨⟨hdata, hk9⟩, hsame⟩
    refine ⟨hdata, fun hk => ⟨hk9 hk, ?_⟩, ?_⟩
    · intro hlen
      have hkept := hsame (Or.inl ⟨hk, hlen⟩)
      rw [(execFrame_rejected h (Or.inl ⟨hk, hlen⟩)).2.2, if_pos hk, samePositions_recvpos,
        feRecvint64_of_length (hk9 hk)] at hkept
      exact max_eq_right_iff.1 hkept
    · intro hw hlen hbad
      have hr : f.Rejected := Or.inr (Or.inl ⟨hw, Or.inr hbad⟩)
      have hkept := hsame hr
      rw [(execFrame_rejected h hr).2.2, if_neg (hw ▸ hne), if_pos ⟨hw, hlen⟩,
        samePositions_recvpos] at hkept
      exact hkept
  · rintro ⟨hdata, hkeepalive, hpayload⟩
    refine ⟨⟨hdata, fun hk => (hkeepalive hk).1⟩, fun hr => ?_⟩
    rw [(execFrame_rejected h hr).2.2]
    rcases hr with ⟨hk, hlen⟩ | ⟨hw, hbad⟩ | ⟨hk, hw⟩
    · rw [if_pos hk, samePositions_recvpos, feRecvint64_of_length (hkeepalive hk).1]
      exact max_eq_right ((hkeepalive hk).2 hlen)
    · rw [if_neg (hw ▸ hne)]
      by_cases hlen : 1 + 8 + 8 + 8 + 1 ≤ f.data.length
      · rw [if_pos ⟨hw, hlen⟩, samePositions_recvpos]
        exact hpayload hw hlen (hbad.resolve_left (not_lt.2 hlen))
      · rw [if_neg fun h => hlen h.2]
        exact ⟨rfl, rfl, rfl, rfl⟩
    · rw [if_neg hk, if_neg fun h => hw h.1]
      exact ⟨rfl, rfl, rfl, rfl⟩

end

/-- A keepalive of one byte: the position is made of what follows it in memory.  A data frame with
an unknown action: `recvpos`, from which the stream is started again, is what its header says. -/
theorem rejected_moves :
    (¬ FrameHandled {} ⟨[ch 'k'], fun _ => 255, fun _ => 0, 0, ⟨true, true⟩⟩ ∧
      (execFrame {} ⟨[ch 'k'], fun _ => 255, fun _ => 0, 0, ⟨true, true⟩⟩).2.1.recvpos =
        2 ^ 64 - 1) ∧
    ¬ FrameHandled { recvpos := 100 }
      ⟨ch 'w' :: List.replicate 24 0 ++ [ch 'X'], fun _ => 0, fun _ => 0, 0, ⟨true, true⟩⟩ := by
  refine ⟨⟨?_, by decide⟩, ?_⟩
  · rintro ⟨hreads, -⟩
    revert hreads
    decide
  · rintro ⟨-, hsame⟩
    have hpos := (hsame (Or.inr (Or.inl ⟨rfl, Or.inr (by decide)⟩))).recvpos
    revert hpos
    decide

end RdsDbsync
