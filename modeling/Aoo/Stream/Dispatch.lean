import Aoo.Lib.LinkedList
import Aoo.Lib.Run
import Aoo.Stream.Messages

/-!
# The order in which stream messages are dispatched

`sched_stream_message` puts a message into a linked list, behind all that are not later.
`dispatch_stream_messages` goes through the list as long as the messages lie in the present process
block, and hands them to the user with their offset in it. Messages are at least half a sample
away from the end of the block, or they are left for the next one; so a message that is on
time never comes before one that has been handed over.

A late message should be skipped. Its offset is rounded by adding 0.5 and cutting off the fraction,
which for negative numbers is not rounding: up to one and a half samples before the block
the offset becomes zero, and the message is handed over, even if a later one has been
handed over with the block before.

**Main result** (`dispatched_iff`): over all runs, the list is sorted and stable, messages are
removed once and handed over inside of the block, and they are in order if and only if no
message that is late by more than half a sample and less than one and a half finds
a later one handed over.
-/

namespace Aoo.Stream

open Lib

/-! ## The linked list -/

/-- The nodes of the stream messages: their entries, the `next` pointers, and
`stream_messages_`. -/
structure MessageNodes where
  entry : Nat → StreamEntry
  next : Nat → Option Nat
  streamMessages : Option Nat

namespace MessageNodes

/-- `sched_stream_message`; the fuel bounds the loop. -/
def schedStreamMessage (l : MessageNodes) (fuel : Nat) (msg : Nat) : MessageNodes :=
  let before := fun it => decide ((l.entry msg).time ≥ (l.entry it).time)
  let prepended : MessageNodes :=
    { l with next := Function.update l.next msg l.streamMessages, streamMessages := some msg }
  match l.streamMessages with
  | some first =>
    if before first then
      let it := walk l.next before fuel first
      { l with next := Function.update (Function.update l.next msg (l.next it)) it (some msg) }
    else prepended
  | none => prepended

/-- The list from `stream_messages_` on has these nodes. -/
def Holds (l : MessageNodes) (as : List Nat) : Prop :=
  Linked l.next l.streamMessages as ∧ as.Nodup

end MessageNodes

theorem sched_eq_insertBehind (entry : Nat → StreamEntry) (msg : Nat) :
    ∀ as : List Nat, schedStreamMessage (entry msg) (as.map entry) =
      (insertBehind (fun it => decide ((entry msg).time ≥ (entry it).time)) msg as).map entry := by
  intro as
  induction as with
  | nil => rfl
  | cons a as ih =>
    rw [List.map_cons, schedStreamMessage, insertBehind]
    by_cases hbefore : (entry msg).time ≥ (entry a).time
    · rw [if_pos hbefore, if_pos (decide_eq_true hbefore), ih]
      rfl
    · rw [if_neg hbefore, if_neg (by simpa using hbefore)]
      rfl

/-- **The linked list is the list**: a new node is put where `schedStreamMessage` puts its
entry. -/
theorem MessageNodes.Holds.sched {l : MessageNodes} {as : List Nat} (h : l.Holds as) {msg : Nat}
    (hmsg : msg ∉ as) {fuel : Nat} (hfuel : as.length ≤ fuel) :
    ∃ bs, (l.schedStreamMessage fuel msg).Holds bs ∧ bs.Perm (msg :: as) ∧
      (l.schedStreamMessage fuel msg).entry = l.entry ∧
      bs.map l.entry = Stream.schedStreamMessage (l.entry msg) (as.map l.entry) := by
  obtain ⟨hlinked, hnodup⟩ := h
  have hperm := perm_insertBehind (fun it => decide ((l.entry msg).time ≥ (l.entry it).time)) msg as
  have hnodup' := hperm.nodup_iff.mpr (List.nodup_cons.mpr ⟨hmsg, hnodup⟩)
  refine ⟨_, ⟨?_, hnodup'⟩, hperm, ?_, (sched_eq_insertBehind l.entry msg as).symm⟩
  · cases as with
    | nil =>
      have hnone : l.streamMessages = none := hlinked
      rw [MessageNodes.schedStreamMessage, hnone, insertBehind]
      exact @Linked.prepend _ _ _ _ [] _ rfl hmsg
    | cons a as =>
      have hsome : l.streamMessages = some a := hlinked.1
      rw [MessageNodes.schedStreamMessage, hsome, insertBehind]
      dsimp only
      split
      next =>
        obtain ⟨pre, post, hold, hnew⟩ := walk_insert
          (fun it => decide ((l.entry msg).time ≥ (l.entry it).time)) msg as hlinked.2
          (Nat.le_of_succ_le hfuel)
        rw [hnew]
        rw [hold] at hnodup hmsg
        have hlinked' := hlinked
        rw [hold] at hlinked'
        have hinsert := Linked.insert pre hlinked' hnodup hmsg
        rwa [hsome] at hinsert
      next => exact hsome ▸ Linked.prepend hlinked hmsg
  · rw [MessageNodes.schedStreamMessage]
    split
    · dsimp only
      split <;> rfl
    · rfl

/-! ## Runs -/

/-- One call of the user's handler. -/
structure Handled where
  entry : StreamEntry
  offset : Int
  nsamples : Nat
  deriving DecidableEq

/-- The messages of a source in the sink. The last three fields are not in the source: what
has been scheduled, what has been removed from the list, and the calls of the handler. -/
structure DispatchRun where
  streamMessages : List StreamEntry := []
  processSamples : Int := 0
  scheduled : List StreamEntry := []
  removed : List StreamEntry := []
  handled : List Handled := []
  deriving DecidableEq

/-- What happens to them: `process` dispatches, or skips a block for an xrun. -/
inductive DispatchAction
  | schedStreamMessage (msg : StreamEntry)
  | dispatchStreamMessages (nsamples : Nat)
  | skipXRun (nsamples : Nat)

/-- The call of the handler for an entry that has been taken from the list. -/
def StreamEntry.handle (e : StreamEntry) (processSamples : Int) (nsamples : Nat) :
    Option Handled :=
  match e.dispatch processSamples with
  | some (.message sampleOffset _ _ _ _) => some ⟨e, sampleOffset, nsamples⟩
  | _ => none

namespace DispatchRun

def step (r : DispatchRun) : DispatchAction → DispatchRun
  | .schedStreamMessage msg =>
    { r with
      streamMessages := schedStreamMessage msg r.streamMessages
      scheduled := r.scheduled ++ [msg] }
  | .dispatchStreamMessages nsamples =>
    let (taken, left) := takeDue r.processSamples nsamples r.streamMessages
    { r with
      streamMessages := left
      processSamples := r.processSamples + nsamples
      removed := r.removed ++ taken
      handled := r.handled ++ taken.filterMap (·.handle r.processSamples nsamples) }
  | .skipXRun nsamples => { r with processSamples := r.processSamples + nsamples }

/-- Messages are dispatched in order and once. -/
structure InOrder (r : DispatchRun) : Prop where
  /-- the list is sorted by time -/
  sorted : r.streamMessages.Pairwise fun a b => a.time ≤ b.time
  /-- messages with the same time are in the order in which they were scheduled -/
  stable : ∀ t, r.scheduled.filter (·.time = t) =
    r.removed.filter (·.time = t) ++ r.streamMessages.filter (·.time = t)
  /-- each message that was scheduled is in the list or has been removed -/
  once : (r.removed ++ r.streamMessages).Perm r.scheduled
  /-- it is removed as soon as its time has come -/
  due : ∀ nsamples, 0 < nsamples →
    ∀ e ∈ (r.step (.dispatchStreamMessages nsamples)).streamMessages,
      ((r.processSamples + nsamples : Int) : ℚ) ≤ e.time + 1 / 2
  /-- the handler gets offsets inside of the block -/
  offset : ∀ h ∈ r.handled, 0 ≤ h.offset ∧ h.offset < h.nsamples
  /-- the handler sees messages in the order of their time -/
  order : r.handled.Pairwise fun a b => a.entry.time ≤ b.entry.time

/-- No message finds a later one handed over when it is late by more than half a sample, but
by less than one and a half. -/
def OnTime (r : DispatchRun) : DispatchAction → Prop
  | .dispatchStreamMessages nsamples => 0 < nsamples →
    ∀ e ∈ r.streamMessages, e.type ≠ kAooDataStreamTime →
      (r.processSamples : ℚ) - 3 / 2 < e.time → e.time < r.processSamples - 1 / 2 →
        ∀ h ∈ r.handled, h.entry.time ≤ e.time
  | _ => True

/-! ## Scheduling -/

/-- Among the entries with one time a new one is the last. -/
theorem filter_sched (msg : StreamEntry) (t : ℚ) {l : List StreamEntry}
    (h : l.Pairwise fun a b => a.time ≤ b.time) :
    (schedStreamMessage msg l).filter (·.time = t) =
      l.filter (·.time = t) ++ [msg].filter (·.time = t) := by
  induction l with
  | nil => rfl
  | cons it next ih =>
    obtain ⟨hhead, htail⟩ := List.pairwise_cons.mp h
    rw [schedStreamMessage]
    split
    next => rw [List.filter_cons, List.filter_cons, ih htail]; split <;> rfl
    next hlt =>
      have hlt' : msg.time < it.time := lt_of_not_ge hlt
      by_cases ht : msg.time = t
      · -- nothing behind it has this time
        have hnone : (it :: next).filter (·.time = t) = [] := by
          refine List.filter_eq_nil_iff.mpr fun e he => ?_
          have hle : it.time ≤ e.time := by
            rcases List.mem_cons.mp he with rfl | he
            · exact le_refl _
            · exact hhead e he
          rw [decide_eq_true_eq]
          linarith
        rw [List.filter_cons, hnone, List.nil_append, List.filter_cons]
        rfl
      · have hmsg : [msg].filter (·.time = t) = [] := List.filter_cons_of_neg (by simpa using ht)
        rw [hmsg, List.append_nil, List.filter_cons_of_neg (by simpa using ht)]

/-! ## Dispatching -/

theorem trunc_lt_iff (x : ℚ) (n : Nat) (hn : 0 < n) : trunc x < n ↔ x < n := by
  unfold trunc
  split
  next => rw [Int.floor_lt]; exact Iff.rfl
  next hneg =>
    have hx : x < 0 := lt_of_not_ge hneg
    have hfloor : 0 ≤ ⌊-x⌋ := Int.floor_nonneg.mpr (by linarith)
    have hpos : (0 : ℚ) < n := by exact_mod_cast hn
    exact iff_of_true (by omega) (by linarith)

/-- Cutting off the fraction makes numbers above -1 zero. -/
theorem trunc_nonneg_iff (x : ℚ) : 0 ≤ trunc x ↔ -1 < x := by
  unfold trunc
  split
  next h => exact iff_of_true (Int.floor_nonneg.mpr h) (by linarith)
  next =>
    rw [neg_nonneg, ← Int.lt_add_one_iff, Int.floor_lt]
    push_cast
    constructor <;> intro h <;> linarith

/-- An entry that is taken is not too close to the end of the block. -/
theorem mem_taken {p : Int} {n : Nat} {e : StreamEntry} :
    ∀ {l : List StreamEntry}, e ∈ (takeDue p n l).1 → e.offset p < n := by
  intro l
  induction l with
  | nil => exact fun he => absurd he List.not_mem_nil
  | cons it next ih =>
    intro he
    rw [takeDue] at he
    split at he
    next =>
      split at he
      next => exact absurd he List.not_mem_nil
      next hoffset =>
        rcases List.mem_cons.mp he with rfl | he
        · exact lt_of_not_ge hoffset
        · exact ih he
    next => exact absurd he List.not_mem_nil

/-- When the handler is called for an entry. -/
theorem handle_eq_some_iff {e : StreamEntry} {p : Int} {n : Nat} {h : Handled} :
    e.handle p n = some h ↔
      0 ≤ e.offset p ∧ e.type ≠ kAooDataStreamTime ∧ h = ⟨e, e.offset p, n⟩ := by
  rw [StreamEntry.handle, StreamEntry.dispatch]
  by_cases hlate : e.offset p ≥ 0
  · by_cases htype : e.type = kAooDataStreamTime
    · rw [if_pos hlate, if_pos htype]
      exact iff_of_false nofun fun hnot => hnot.2.1 htype
    · rw [if_pos hlate, if_neg htype]
      constructor
      · intro heq
        exact ⟨hlate, htype, (Option.some.inj heq).symm⟩
      · intro ⟨_, _, heq⟩
        rw [heq]
  · rw [if_neg hlate]
    exact iff_of_false nofun fun hnot => hlate hnot.1

/-- The calls of the handler that one call of `dispatch_stream_messages` makes. -/
def newlyHandled (r : DispatchRun) (n : Nat) : List Handled :=
  (takeDue r.processSamples n r.streamMessages).1.filterMap (·.handle r.processSamples n)

theorem mem_newlyHandled {r : DispatchRun} {n : Nat} {h : Handled} :
    h ∈ newlyHandled r n ↔
      h.entry ∈ (takeDue r.processSamples n r.streamMessages).1 ∧
        0 ≤ h.entry.offset r.processSamples ∧ h.entry.type ≠ kAooDataStreamTime ∧
        h.offset = h.entry.offset r.processSamples ∧ h.nsamples = n := by
  rw [newlyHandled, List.mem_filterMap]
  constructor
  · intro ⟨e, he, heq⟩
    obtain ⟨hlate, htype, rfl⟩ := handle_eq_some_iff.mp heq
    exact ⟨he, hlate, htype, rfl, rfl⟩
  · intro ⟨he, hlate, htype, hoffset, hn⟩
    refine ⟨h.entry, he, handle_eq_some_iff.mpr ⟨hlate, htype, ?_⟩⟩
    rw [← hoffset, ← hn]

/-! ## What a run keeps -/

/-- What holds in every state, whatever happens: everything but the order of the calls. -/
structure Inv (r : DispatchRun) : Prop where
  sorted : r.streamMessages.Pairwise fun a b => a.time ≤ b.time
  stable : ∀ t, r.scheduled.filter (·.time = t) =
    r.removed.filter (·.time = t) ++ r.streamMessages.filter (·.time = t)
  once : (r.removed ++ r.streamMessages).Perm r.scheduled
  offset : ∀ h ∈ r.handled, 0 ≤ h.offset ∧ h.offset < h.nsamples
  /-- what was handed over lies half a sample before the next block -/
  early : ∀ h ∈ r.handled, h.entry.time < r.processSamples - 1 / 2

theorem inv_empty : Inv {} :=
  ⟨List.Pairwise.nil, fun _ => rfl, List.Perm.refl _, nofun, nofun⟩

variable {r : DispatchRun}

/-- Scheduling a message keeps the list sorted and stable. -/
theorem Inv.sched (h : Inv r) (msg : StreamEntry) : Inv (r.step (.schedStreamMessage msg)) where
  sorted := sched_sorted msg h.sorted
  stable t := by
    show (r.scheduled ++ [msg]).filter (·.time = t) = _
    rw [List.filter_append, h.stable t, List.append_assoc, ← filter_sched msg t h.sorted]
    rfl
  once := by
    show (r.removed ++ schedStreamMessage msg r.streamMessages).Perm (r.scheduled ++ [msg])
    refine ((sched_perm msg r.streamMessages).append_left r.removed).trans ?_
    exact List.perm_middle.trans ((h.once.cons msg).trans (List.perm_append_singleton ..).symm)
  offset := h.offset
  early := h.early

/-- Process time goes on. -/
theorem Inv.skip (h : Inv r) (n : Nat) : Inv (r.step (.skipXRun n)) where
  sorted := h.sorted
  stable := h.stable
  once := h.once
  offset := h.offset
  early x hx := by
    have hearly := h.early x hx
    have hn : (0 : ℚ) ≤ n := Nat.cast_nonneg n
    show x.entry.time < ((r.processSamples + n : Int) : ℚ) - 1 / 2
    push_cast
    linarith

/-- Dispatching takes messages from the front of the list. -/
theorem Inv.dispatch (h : Inv r) (n : Nat) : Inv (r.step (.dispatchStreamMessages n)) := by
  obtain ⟨hsplit, -⟩ := takeDue_spec r.processSamples n h.sorted
  have hstep : (r.step (.dispatchStreamMessages n)).streamMessages =
      (takeDue r.processSamples n r.streamMessages).2 := rfl
  have hremoved : (r.step (.dispatchStreamMessages n)).removed =
      r.removed ++ (takeDue r.processSamples n r.streamMessages).1 := rfl
  refine ⟨?_, ?_, ?_, ?_, ?_⟩
  · have hsorted := h.sorted
    rw [← hsplit] at hsorted
    exact (List.pairwise_append.mp hsorted).2.1
  · intro t
    rw [hstep, hremoved, List.filter_append, List.append_assoc, ← List.filter_append, hsplit]
    exact h.stable t
  · rw [hstep, hremoved, List.append_assoc, hsplit]
    exact h.once
  · intro x hx
    rcases List.mem_append.mp hx with hx | hx
    · exact h.offset x hx
    · obtain ⟨htaken, hlate, -, hoffset, hn⟩ := mem_newlyHandled.mp hx
      rw [hoffset, hn]
      exact ⟨hlate, mem_taken htaken⟩
  · intro x hx
    show x.entry.time < ((r.processSamples + n : Int) : ℚ) - 1 / 2
    rcases List.mem_append.mp hx with hx | hx
    · exact (h.skip n).early x hx
    · obtain ⟨htaken, hlate, -, -, -⟩ := mem_newlyHandled.mp hx
      have hlt : trunc (x.entry.time - r.processSamples + 1 / 2) < n := mem_taken htaken
      have hpos : 0 < n := by
        have : 0 ≤ trunc (x.entry.time - r.processSamples + 1 / 2) := hlate
        omega
      have := (trunc_lt_iff _ n hpos).mp hlt
      push_cast
      linarith

theorem Inv.step (h : Inv r) (a : DispatchAction) : Inv (r.step a) := by
  cases a with
  | schedStreamMessage msg => exact h.sched msg
  | dispatchStreamMessages n => exact h.dispatch n
  | skipXRun n => exact h.skip n

/-! ## The order of the calls -/

/-- The calls of one block are in order. -/
theorem Inv.sorted_newlyHandled (h : Inv r) (n : Nat) :
    (newlyHandled r n).Pairwise fun a b => a.entry.time ≤ b.entry.time := by
  obtain ⟨hsplit, -⟩ := takeDue_spec r.processSamples n h.sorted
  have hsorted := h.sorted
  rw [← hsplit] at hsorted
  refine List.Pairwise.filterMap _ ?_ (List.pairwise_append.mp hsorted).1
  intro a b hab x hx y hy
  obtain ⟨-, -, rfl⟩ := handle_eq_some_iff.mp hx
  obtain ⟨-, -, rfl⟩ := handle_eq_some_iff.mp hy
  exact hab

/-- A block goes on in order if and only if no message is late in the wrong way. -/
theorem Inv.order_dispatch_iff (h : Inv r) (n : Nat) :
    (∀ x ∈ r.handled, ∀ y ∈ newlyHandled r n, x.entry.time ≤ y.entry.time) ↔
      OnTime r (.dispatchStreamMessages n) := by
  obtain ⟨hsplit, hleft⟩ := takeDue_spec r.processSamples n h.sorted
  constructor
  · intro horder hpos e he htype hlower hupper x hx
    -- the message is taken, and its offset becomes zero
    have htaken : e ∈ (takeDue r.processSamples n r.streamMessages).1 := by
      rw [← hsplit] at he
      refine (List.mem_append.mp he).resolve_right fun hmem => ?_
      have hlate := hleft hpos e hmem
      have hn : (0 : ℚ) ≤ n := Nat.cast_nonneg n
      push_cast at hlate
      linarith
    have hoffset : 0 ≤ e.offset r.processSamples := (trunc_nonneg_iff _).mpr (by linarith)
    exact horder x hx ⟨e, e.offset r.processSamples, n⟩
      (mem_newlyHandled.mpr ⟨htaken, hoffset, htype, rfl, rfl⟩)
  · intro hontime x hx y hy
    obtain ⟨htaken, hlate, htype, -, -⟩ := mem_newlyHandled.mp hy
    have hlower := (trunc_nonneg_iff _).mp hlate
    have hpos : 0 < n := by
      have := mem_taken htaken
      omega
    by_cases hupper : y.entry.time < r.processSamples - 1 / 2
    · refine hontime hpos y.entry ?_ htype (by linarith) hupper x hx
      rw [← hsplit]
      exact List.mem_append_left _ htaken
    · have := h.early x hx
      linarith

/-- **One step** keeps the calls in order if and only if it is on time. -/
theorem Inv.order_step_iff (h : Inv r)
    (horder : r.handled.Pairwise fun a b => a.entry.time ≤ b.entry.time) (a : DispatchAction) :
    ((r.step a).handled.Pairwise fun a b => a.entry.time ≤ b.entry.time) ↔ OnTime r a := by
  cases a with
  | schedStreamMessage msg => exact iff_of_true horder trivial
  | skipXRun n => exact iff_of_true horder trivial
  | dispatchStreamMessages n =>
    rw [← h.order_dispatch_iff n]
    show (r.handled ++ newlyHandled r n).Pairwise _ ↔ _
    rw [List.pairwise_append]
    constructor
    · intro hall
      exact hall.2.2
    · intro hboth
      exact ⟨horder, h.sorted_newlyHandled n, hboth⟩

/-- Calls of the handler are not taken back. -/
theorem handled_start (as : List DispatchAction) :
    ∀ r : DispatchRun, r.handled <+: (as.foldl step r).handled := by
  induction as with
  | nil => exact fun r => List.prefix_refl _
  | cons a as ih =>
    intro r
    refine List.IsPrefix.trans ?_ (ih (r.step a))
    cases a with
    | schedStreamMessage msg => exact List.prefix_refl _
    | dispatchStreamMessages n => exact List.prefix_append _ _
    | skipXRun n => exact List.prefix_refl _

/-- A run keeps the calls in order if and only if all its steps are on time. -/
theorem Inv.order_run_iff (as : List DispatchAction) :
    ∀ {r : DispatchRun}, Inv r →
      (r.handled.Pairwise fun a b => a.entry.time ≤ b.entry.time) →
        (((as.foldl DispatchRun.step r).handled.Pairwise
            fun a b => a.entry.time ≤ b.entry.time) ↔
          StepsAll DispatchRun.step OnTime r as) := by
  induction as with
  | nil =>
    intro r _ horder
    exact iff_of_true horder trivial
  | cons a as ih =>
    intro r h horder
    rw [List.foldl_cons, StepsAll, ← h.order_step_iff horder a]
    constructor
    · intro hall
      have hstep := hall.sublist (handled_start as (r.step a)).sublist
      exact ⟨hstep, (ih (h.step a) hstep).mp hall⟩
    · intro hboth
      exact (ih (h.step a) hboth.1).mpr hboth.2

theorem inv_run (as : List DispatchAction) :
    ∀ {r : DispatchRun}, Inv r → Inv (as.foldl DispatchRun.step r) := by
  induction as with
  | nil => exact fun h => h
  | cons a as ih => exact fun h => ih (h.step a)

/-- **Stream messages are dispatched in order and once** if and only if no message is handed
over that is late by more than half a sample and has a later one before it. -/
theorem dispatched_iff :
    ∀ as : List DispatchAction,
      InOrder (as.foldl DispatchRun.step {}) ↔ StepsAll DispatchRun.step OnTime {} as := by
  intro as
  have hinv := inv_run as inv_empty
  rw [← inv_empty.order_run_iff as List.Pairwise.nil]
  constructor
  · intro h
    exact h.order
  · intro horder
    exact ⟨hinv.sorted, hinv.stable, hinv.once,
      fun n hn => (takeDue_spec _ n hinv.sorted).2 hn, hinv.offset, horder⟩

end DispatchRun

/-! ## A late message -/

/-- A stream message of two bytes at a sample time. -/
def messageAt (time : ℚ) : StreamEntry := ⟨time, 0, 1, 2, .message [104, 105]⟩

/-- A message in the first block of 64 samples; in front of it, one that comes too late. -/
def lateRun : List DispatchAction :=
  [.schedStreamMessage (messageAt (632 / 10)), .dispatchStreamMessages 64,
    .schedStreamMessage (messageAt (629 / 10)), .dispatchStreamMessages 64]

/-- The late message is not skipped, and the handler gets them in the wrong order. -/
theorem late_message_handled :
    (lateRun.foldl DispatchRun.step {}).handled.map Handled.entry =
        [messageAt (632 / 10), messageAt (629 / 10)] ∧
      ¬ DispatchRun.InOrder (lateRun.foldl DispatchRun.step {}) := by
  have hhandled : (lateRun.foldl DispatchRun.step {}).handled.map Handled.entry =
      [messageAt (632 / 10), messageAt (629 / 10)] := by
    decide +kernel
  refine ⟨hhandled, fun h => ?_⟩
  have horder : ((lateRun.foldl DispatchRun.step {}).handled.map Handled.entry).Pairwise
      fun a b => a.time ≤ b.time := List.pairwise_map.mpr h.order
  rw [hhandled] at horder
  have hle : (messageAt (632 / 10)).time ≤ (messageAt (629 / 10)).time :=
    (List.pairwise_cons.mp horder).1 _ (List.mem_singleton_self _)
  norm_num [messageAt] at hle

end Aoo.Stream
