import Mathlib.Data.List.GetD
import Aoo.Net.Peer

/-!
# The receive buffer

Whatever arrives, the receive buffer holds the messages after the last one that
was handed over, without gaps: `ReceiveInv`. It can therefore be read as an
infinite list of messages of which all but finitely many are placeholders
(`msgAt`), and in that reading `storeFrame` changes one entry and the loop
over completed messages changes none (`storeFrame_msgAt`, `popComplete_spec`).
-/

namespace Aoo.Net

open Lib

/-- A message without buffer expects no frames, and a buffer has the size of
the message. -/
structure ReceivedMessage.Sized (m : ReceivedMessage) : Prop where
  none : m.data = none → m.frames = ∅
  some : ∀ d, m.data = some d → (d.length : Int) = m.size

/-- The buffer holds the sequence numbers `lastPopped + 1 .. lastPushed`. -/
structure ReceiveInv (b : MessageReceiveBuffer) : Prop where
  popped : -1 ≤ b.lastPopped
  pushed : b.lastPushed = b.lastPopped + b.data.length
  seq : ∀ (i : Nat) (m : ReceivedMessage), b.data[i]? = some m → m.sequence = b.lastPopped + 1 + i
  sized : ∀ m ∈ b.data, m.Sized

/-- The message with sequence number `q`; a placeholder if it has not been
pushed yet. -/
def MessageReceiveBuffer.msgAt (b : MessageReceiveBuffer) (q : Int) : ReceivedMessage :=
  b.data.getD (q - b.lastPopped - 1).toNat { sequence := q }

/-- An empty buffer. -/
theorem receiveInv_empty : ReceiveInv {} := by
  refine ⟨by decide, by decide, ?_, ?_⟩
  · intro i m h
    simp at h
  · intro m h
    simp at h

/-- A placeholder has no data. -/
theorem placeholder_sized (q : Int) : ({ sequence := q } : ReceivedMessage).Sized :=
  ⟨fun _ => rfl, fun d h => by cases h⟩

/-! ## Single messages -/

/-- A message that is begun gets as much memory as it says. -/
theorem init_sized {m m' : ReceivedMessage} {type : Int} {tt : Nat} {n size : Int} {ok : Bool}
    (hm : m.Sized) (h : m.data = none) (hi : m.init type tt n size = .ok (m', ok)) :
    m'.Sized ∧ m'.sequence = m.sequence ∧ (ok = true → m'.data ≠ none) := by
  by_cases hsize : size < 0
  · rw [ReceivedMessage.init_of_neg _ _ _ _ hsize] at hi
    cases hi
    refine ⟨⟨fun _ => hm.none h, fun d hd => ?_⟩, rfl, fun hok => nomatch hok⟩
    simp only [h] at hd
    cases hd
  · by_cases hn : n ≤ 256
    · rw [ReceivedMessage.init_eq _ _ _ (by omega) hn] at hi
      cases hi
      refine ⟨⟨fun hd => by simp [ReceivedMessage.initialised] at hd, fun d hd => ?_⟩, rfl,
        fun _ hd => by simp [ReceivedMessage.initialised] at hd⟩
      cases hd
      simp only [ReceivedMessage.initialised, List.length_replicate]
      omega
    · rw [ReceivedMessage.init_of_gt _ _ _ (by omega) (by omega)] at hi
      cases hi

/-- A frame that fits does not change the size. -/
theorem withFrame_sized {m : ReceivedMessage} {index : Int} {data : List UInt8}
    (hm : m.Sized) (hf : m.FrameFits index data.length) : (m.withFrame index data).Sized := by
  refine ⟨fun hd => ?_, fun d hd => ?_⟩
  · have hnone : m.data = none := by
      simpa [ReceivedMessage.withFrame, copyTo] using hd
    simp [ReceivedMessage.withFrame, hm.none hnone]
  · obtain ⟨b, hb, hw⟩ : ∃ b, m.data = some b ∧
        writeAt b (m.frameOnset index data.length).toNat (data.map some) = d := by
      simpa [ReceivedMessage.withFrame, copyTo] using hd
    have hcopy : CopyFits (some b) (m.frameOnset index data.length) (data.map some).length := by
      rw [List.length_map, ← hb]
      exact hf.1
    rw [← hw, writeAt_toNat_length hcopy]
    exact hm.some b hb

/-- Nor does a frame that is added. -/
theorem addFrame_sized {m m' : ReceivedMessage} {index : Int} {data : List UInt8} (hm : m.Sized)
    (h : m.addFrame index data = .ok m') : m'.Sized ∧ m'.sequence = m.sequence := by
  have hf := ReceivedMessage.addFrame_ok_iff.mp ⟨_, h⟩
  rw [ReceivedMessage.addFrame_eq hf] at h
  cases h
  exact ⟨withFrame_sized hm hf, rfl⟩

/-- Both ways of adding a frame end in a message of the same sequence number
whose buffer has the right size. -/
theorem addNewMessage_sized {p : MessagePacket} {m : ReceivedMessage} {ok : Bool}
    (h : addNewMessage p = .ok (m, ok)) : m.Sized ∧ m.sequence = p.sequence := by
  rw [addNewMessage] at h
  split at h
  next => cases h
  next m₁ hi =>
    cases h
    obtain ⟨hs, hq, -⟩ := init_sized (placeholder_sized _) rfl hi
    exact ⟨hs, hq⟩
  next m₁ hi =>
    obtain ⟨hs, hq, -⟩ := init_sized (placeholder_sized _) rfl hi
    split at h
    next m₂ ha =>
      cases h
      obtain ⟨hs', hq'⟩ := addFrame_sized hs ha
      exact ⟨hs', hq'.trans hq⟩
    next => cases h

/-- A frame of a message that was begun keeps its size and number. -/
theorem addMissingFrame_sized {m m' : ReceivedMessage} {p : MessagePacket} (hm : m.Sized)
    (h : addMissingFrame m p = .ok m') : m'.Sized ∧ m'.sequence = m.sequence := by
  rw [addMissingFrame] at h
  split at h
  next => cases h
  next =>
    cases h
    exact ⟨hm, rfl⟩
  next => exact addFrame_sized hm h

/-- So does a frame for any message in the buffer. -/
theorem addToExisting_sized {m m' : ReceivedMessage} {p : MessagePacket} {ok : Bool}
    (hm : m.Sized) (h : addToExisting m p = .ok (m', ok)) :
    m'.Sized ∧ m'.sequence = m.sequence := by
  have hready : ∀ m₁ ok₁, (if m.placeholder then m.init p.type p.tt p.numFrames p.totalSize
      else .ok (m, true)) = Except.ok (m₁, ok₁) → m₁.Sized ∧ m₁.sequence = m.sequence := by
    intro m₁ ok₁ h₁
    split at h₁
    next hp =>
      obtain ⟨hs, hq, -⟩ := init_sized hm (Option.isNone_iff_eq_none.mp hp) h₁
      exact ⟨hs, hq⟩
    next =>
      cases h₁
      exact ⟨hm, rfl⟩
  rw [addToExisting] at h
  split at h
  next => cases h
  next m₁ hi =>
    cases h
    exact hready _ _ hi
  next m₁ hi =>
    obtain ⟨hs, hq⟩ := hready _ _ hi
    split at h
    next m₂ ha =>
      cases h
      obtain ⟨hs', hq'⟩ := addMissingFrame_sized hs ha
      exact ⟨hs', hq'.trans hq⟩
    next => cases h

/-! ## The buffer as a list of messages -/

/-- Behind the last message there are only placeholders to come. -/
theorem msgAt_of_gt {b : MessageReceiveBuffer} (h : ReceiveInv b) {q : Int}
    (hq : b.lastPushed < q) : b.msgAt q = { sequence := q } := by
  have := h.pushed
  rw [MessageReceiveBuffer.msgAt, List.getD_eq_default _ _ (by omega)]

/-- Between the ends every message is in the buffer. -/
theorem msgAt_mem {b : MessageReceiveBuffer} (h : ReceiveInv b) {q : Int}
    (hpop : b.lastPopped < q) (hpush : q ≤ b.lastPushed) : b.msgAt q ∈ b.data := by
  have := h.pushed
  have hlt : (q - b.lastPopped - 1).toNat < b.data.length := by omega
  rw [MessageReceiveBuffer.msgAt, List.getD_eq_getElem _ _ hlt]
  exact List.getElem_mem hlt

/-- It has the size that it has said. -/
theorem msgAt_sized {b : MessageReceiveBuffer} (h : ReceiveInv b) {q : Int}
    (hpop : b.lastPopped < q) : (b.msgAt q).Sized := by
  by_cases hpush : q ≤ b.lastPushed
  · exact h.sized _ (msgAt_mem h hpop hpush)
  · rw [msgAt_of_gt h (by omega)]
    exact placeholder_sized q

/-- It has its own number. -/
theorem msgAt_sequence {b : MessageReceiveBuffer} (h : ReceiveInv b) {q : Int}
    (hpop : b.lastPopped < q) : (b.msgAt q).sequence = q := by
  by_cases hpush : q ≤ b.lastPushed
  · have := h.pushed
    have hlt : (q - b.lastPopped - 1).toNat < b.data.length := by omega
    have hs := h.seq _ _ (List.getElem?_eq_getElem hlt)
    rw [MessageReceiveBuffer.msgAt, List.getD_eq_getElem _ _ hlt, hs]
    omega
  · rw [msgAt_of_gt h (by omega)]

/-- A message is found at its distance from the front. -/
theorem find_eq {b : MessageReceiveBuffer} (h : ReceiveInv b) {q : Int}
    (hpop : b.lastPopped < q) (hpush : q ≤ b.lastPushed) :
    b.find q = some (q - b.lastPopped - 1).toNat := by
  have := h.pushed
  have hlt : (q - b.lastPopped - 1).toNat < b.data.length := by omega
  rw [MessageReceiveBuffer.find, List.findIdx?_eq_some_iff_getElem]
  refine ⟨hlt, ?_, ?_⟩
  · have hs := h.seq _ _ (List.getElem?_eq_getElem hlt)
    simp only [decide_eq_true_eq]
    omega
  · intro j hj
    have hs := h.seq _ _ (List.getElem?_eq_getElem (by omega : j < b.data.length))
    simp only [decide_eq_true_eq]
    omega

/-- `b'` holds `m` at `q` and is otherwise `b`. -/
structure Updated (b b' : MessageReceiveBuffer) (q : Int) (m : ReceivedMessage) : Prop where
  inv : ReceiveInv b'
  popped : b'.lastPopped = b.lastPopped
  pushed : b'.lastPushed = max b.lastPushed q
  at_eq : ∀ r, b.lastPopped < r → b'.msgAt r = if r = q then m else b.msgAt r

/-- A pushed message is the only one that is new. -/
theorem push_updated {b : MessageReceiveBuffer} {m : ReceivedMessage} (h : ReceiveInv b)
    (hseq : m.sequence = b.lastPushed + 1) (hm : m.Sized) : Updated b (b.push m) m.sequence m := by
  have hp := h.pushed
  refine ⟨⟨h.popped, ?_, ?_, ?_⟩, rfl, ?_, ?_⟩
  · simp only [MessageReceiveBuffer.push, List.length_append, List.length_cons, List.length_nil]
    omega
  · intro i m' hi
    simp only [MessageReceiveBuffer.push] at hi ⊢
    by_cases hlt : i < b.data.length
    · rw [List.getElem?_append_left hlt] at hi
      exact h.seq i m' hi
    · rw [List.getElem?_append_right (by omega), List.getElem?_singleton] at hi
      split at hi
      next h0 =>
        cases hi
        omega
      next => cases hi
  · intro m' hmem
    simp only [MessageReceiveBuffer.push, List.mem_append, List.mem_singleton] at hmem
    rcases hmem with hmem | rfl
    · exact h.sized m' hmem
    · exact hm
  · simp only [MessageReceiveBuffer.push]
    omega
  · intro r hr
    simp only [MessageReceiveBuffer.msgAt, MessageReceiveBuffer.push, List.getD_eq_getElem?_getD]
    split
    next he =>
      rw [List.getElem?_append_right (by omega), List.getElem?_singleton, if_pos (by omega)]
      rfl
    next hne =>
      by_cases hlt : (r - b.lastPopped - 1).toNat < b.data.length
      · rw [List.getElem?_append_left hlt]
      · rw [List.getElem?_append_right (by omega), List.getElem?_singleton, if_neg (by omega),
          List.getElem?_eq_none (by omega)]

/-- A changed message is the only one that is different. -/
theorem set_updated {b : MessageReceiveBuffer} {m : ReceivedMessage} (h : ReceiveInv b)
    (hpop : b.lastPopped < m.sequence) (hpush : m.sequence ≤ b.lastPushed) (hm : m.Sized) :
    Updated b (b.set (m.sequence - b.lastPopped - 1).toNat m) m.sequence m := by
  have hp := h.pushed
  have hlt : (m.sequence - b.lastPopped - 1).toNat < b.data.length := by omega
  refine ⟨⟨h.popped, ?_, ?_, ?_⟩, rfl, ?_, ?_⟩
  · simp only [MessageReceiveBuffer.set, List.length_set]
    exact hp
  · intro i m' hi
    simp only [MessageReceiveBuffer.set, List.getElem?_set] at hi ⊢
    split at hi
    next he =>
      cases hi
      omega
    next => exact h.seq i m' hi
  · intro m' hmem
    rcases List.mem_or_eq_of_mem_set hmem with hmem | rfl
    · exact h.sized m' hmem
    · exact hm
  · simp only [MessageReceiveBuffer.set]
    omega
  · intro r hr
    simp only [MessageReceiveBuffer.msgAt, MessageReceiveBuffer.set, List.getD_eq_getElem?_getD,
      List.getElem?_set]
    by_cases he : r = m.sequence
    · rw [if_pos he, if_pos (by omega), if_pos hlt]
      rfl
    · rw [if_neg he, if_neg (by omega)]

/-- Placeholders for skipped messages change nothing but `lastPushed`. -/
theorem pushSkipped_spec {b : MessageReceiveBuffer} {onset : Int} (n : Nat) (h : ReceiveInv b)
    (ho : onset = b.lastPushed + 1) :
    ReceiveInv (pushSkipped b onset n) ∧
      (pushSkipped b onset n).lastPopped = b.lastPopped ∧
      (pushSkipped b onset n).lastPushed = b.lastPushed + n ∧
      ∀ r, b.lastPopped < r → (pushSkipped b onset n).msgAt r = b.msgAt r := by
  induction n generalizing b onset with
  | zero => exact ⟨h, rfl, by simp [pushSkipped], fun _ _ => rfl⟩
  | succ n ih =>
    have hu := push_updated h (m := { sequence := onset }) ho (placeholder_sized onset)
    have hmax : (b.push { sequence := onset }).lastPushed = onset := rfl
    obtain ⟨hinv, hpop, hpush, hat⟩ := ih hu.inv (by rw [hmax])
    rw [pushSkipped]
    refine ⟨hinv, hpop.trans hu.popped, ?_, ?_⟩
    · rw [hpush, hmax]
      push_cast
      omega
    · intro r hr
      rw [hat r (by rw [hu.popped]; exact hr), hu.at_eq r hr]
      split
      next he =>
        have he : r = onset := he
        rw [he, msgAt_of_gt h (by omega)]
      next => rfl

/-! ## Storing a frame -/

/-- What a frame does to the message it belongs to. -/
def addToMessage (b : MessageReceiveBuffer) (p : MessagePacket) :
    Except Fault (ReceivedMessage × Bool) :=
  if p.sequence > b.lastPushed then addNewMessage p else addToExisting (b.msgAt p.sequence) p

/-- **Storing a frame touches one message.** It faults exactly when adding the
frame to its message does, and changes that message only. -/
theorem storeFrame_updated {b : MessageReceiveBuffer} {p : MessagePacket} (h : ReceiveInv b)
    (hpop : b.lastPopped < p.sequence) :
    (∀ m ok, addToMessage b p = .ok (m, ok) →
      ∃ b', storeFrame b p = .ok (b', ok) ∧ Updated b b' p.sequence m) ∧
    (∀ e, addToMessage b p = .error e → storeFrame b p = .error e) := by
  have hp := h.pushed
  have hp1 := h.popped
  rw [addToMessage, storeFrame]
  by_cases hnew : p.sequence > b.lastPushed
  · rw [if_pos hnew, if_pos hnew]
    refine ⟨fun m ok hm => ?_, fun e he => by simp only [he]⟩
    obtain ⟨hs, hq⟩ := addNewMessage_sized hm
    -- the buffer is never behind sequence number -1, so both onsets coincide
    have honset : (if b.lastPushed ≥ 0 then b.lastPushed + 1 else 0) = b.lastPushed + 1 := by
      split <;> omega
    have hskip : (if b.lastPushed ≥ 0 then p.sequence - b.lastPushed - 1 else p.sequence) =
        p.sequence - b.lastPushed - 1 := by
      split <;> omega
    simp only [hm, honset, hskip]
    obtain ⟨hinv, hpop', hpush', hat⟩ :=
      pushSkipped_spec (p.sequence - b.lastPushed - 1).toNat h rfl
    have hu := push_updated hinv (m := m) (by omega) hs
    refine ⟨_, rfl, hu.inv, hu.popped.trans hpop', ?_, ?_⟩
    · rw [hu.pushed, hq]
      omega
    · intro r hr
      rw [hu.at_eq r (by omega), hat r hr, hq]
  · rw [if_neg hnew, if_neg hnew, find_eq h hpop (by omega)]
    have hmsg : b.data.getD (p.sequence - b.lastPopped - 1).toNat {} = b.msgAt p.sequence := by
      have hlt : (p.sequence - b.lastPopped - 1).toNat < b.data.length := by omega
      rw [MessageReceiveBuffer.msgAt, List.getD_eq_getElem _ _ hlt, List.getD_eq_getElem _ _ hlt]
    simp only [hmsg]
    refine ⟨fun m ok hm => ?_, fun e he => by simp only [he]⟩
    obtain ⟨hs, hq⟩ := addToExisting_sized (msgAt_sized h hpop) hm
    rw [msgAt_sequence h hpop] at hq
    have hu := set_updated h (m := m) (by omega) (by omega) hs
    rw [hq] at hu
    simp only [hm]
    exact ⟨_, rfl, hu⟩

/-! ## Handing over completed messages -/

/-- **The loop over completed messages takes a front part of the buffer**: the
messages up to the first incomplete one. -/
theorem popComplete_spec {b : MessageReceiveBuffer} {n : Nat} (h : ReceiveInv b)
    (hn : b.data.length ≤ n) :
    ∃ k ≤ b.data.length, ∃ b',
      b.popComplete n = (b.data.take k, b') ∧ b' = { b with
        data := b.data.drop k
        lastPopped := b.lastPopped + k } ∧
      ReceiveInv b' ∧ (∀ m ∈ b.data.take k, m.complete = true) := by
  induction n generalizing b with
  | zero =>
    refine ⟨0, Nat.zero_le _, b, ?_, ?_, h, ?_⟩
    · simp [MessageReceiveBuffer.popComplete]
    · simp
    · simp
  | succ n ih =>
    obtain ⟨data, lastPushed, lastPopped⟩ := b
    cases data with
    | nil =>
      refine ⟨0, Nat.zero_le _, _, rfl, ?_, h, ?_⟩
      · simp
      · simp
    | cons m rest =>
      by_cases hc : m.complete
      · have hseq : m.sequence = lastPopped + 1 := by
          have := h.seq 0 m rfl
          simpa using this
        have hpop : MessageReceiveBuffer.pop ⟨m :: rest, lastPushed, lastPopped⟩ =
            ⟨rest, lastPushed, lastPopped + 1⟩ := by
          simp [MessageReceiveBuffer.pop, hseq]
        -- without its front message the buffer begins one number later
        have hinv : ReceiveInv ⟨rest, lastPushed, lastPopped + 1⟩ := by
          refine ⟨?_, ?_, ?_, ?_⟩
          · have := h.popped
            simp only at this ⊢
            omega
          · have := h.pushed
            simp only [List.length_cons] at this ⊢
            push_cast at this
            omega
          · intro i m' hi
            have := h.seq (i + 1) m' hi
            simp only at this ⊢
            push_cast at this
            omega
          · intro m' hm'
            exact h.sized m' (List.mem_cons_of_mem _ hm')
        obtain ⟨k, hk, b', heq, hb', hinv', hall⟩ := ih hinv (Nat.le_of_succ_le_succ hn)
        refine ⟨k + 1, by simpa using hk, b', ?_, ?_, hinv', ?_⟩
        · simp only [MessageReceiveBuffer.popComplete, if_pos hc, hpop, heq, List.take_succ_cons]
        · rw [hb']
          simp only [List.drop_succ_cons, MessageReceiveBuffer.mk.injEq, true_and]
          push_cast
          omega
        · intro m' hm'
          rw [List.take_succ_cons, List.mem_cons] at hm'
          rcases hm' with rfl | hm'
          · exact hc
          · exact hall m' hm'
      · refine ⟨0, Nat.zero_le _, ⟨m :: rest, lastPushed, lastPopped⟩, ?_, ?_, h, ?_⟩
        · simp [MessageReceiveBuffer.popComplete, hc]
        · simp
        · simp

/-- `b'` is `b` without its first `k` messages, which are complete. -/
structure Popped (b b' : MessageReceiveBuffer) (k : Nat) : Prop where
  inv : ReceiveInv b'
  popped : b'.lastPopped = b.lastPopped + k
  pushed : b'.lastPushed = b.lastPushed
  complete : ∀ i < k, (b.msgAt (b.lastPopped + 1 + i)).complete = true
  at_eq : ∀ r, b'.lastPopped < r → b'.msgAt r = b.msgAt r

/-- The same in terms of sequence numbers: the loop hands over the messages
`lastPopped + 1 .. lastPopped + k` and leaves the others alone. -/
theorem popComplete_msgAt {b : MessageReceiveBuffer} (h : ReceiveInv b) :
    ∃ (k : Nat) (b' : MessageReceiveBuffer),
      b.popComplete b.data.length =
        ((List.range k).map fun i : Nat => b.msgAt (b.lastPopped + 1 + i), b') ∧
      Popped b b' k := by
  obtain ⟨k, hk, b', heq, hb', hinv, hall⟩ := popComplete_spec h (Nat.le_refl _)
  have hmsg : ∀ i < b.data.length, b.data[i]? = some (b.msgAt (b.lastPopped + 1 + i)) := by
    intro i hi
    have hidx : (b.lastPopped + 1 + (i : Int) - b.lastPopped - 1).toNat = i := by omega
    rw [MessageReceiveBuffer.msgAt, hidx, List.getElem?_eq_getElem hi,
      List.getD_eq_getElem _ _ hi]
  have htake : b.data.take k = (List.range k).map fun i : Nat => b.msgAt (b.lastPopped + 1 + i) := by
    refine List.ext_getElem? fun i => ?_
    by_cases hi : i < k
    · rw [List.getElem?_take_of_lt hi, hmsg i (by omega), List.getElem?_map,
        List.getElem?_range hi]
      rfl
    · rw [List.getElem?_eq_none (by rw [List.length_take]; omega),
        List.getElem?_eq_none (by rw [List.length_map, List.length_range]; omega)]
  refine ⟨k, b', by rw [heq, htake], hinv, by rw [hb'], by rw [hb'], ?_, ?_⟩
  · intro i hi
    refine hall _ ?_
    rw [htake]
    exact List.mem_map.mpr ⟨i, List.mem_range.mpr hi, rfl⟩
  · intro r hr
    rw [hb'] at hr ⊢
    simp only at hr
    simp only [MessageReceiveBuffer.msgAt, List.getD_eq_getElem?_getD, List.getElem?_drop]
    congr 2
    omega

end Aoo.Net
