import Aoo.Osc.Outbound
import Mathlib.Data.List.Basic

/-!
# What `OutboundPacketStream` writes

The stream and its draft take the same steps (`attempt_refines`), for any sequence of operators,
also one that streams arguments outside of a message or goes on after an exception. Nothing is
ever written or read outside of the buffer, and `Size()` is the size of the draft. When all that is
open is ended, this is the size of the packet (`Draft.run_finish`), unless there are arguments outside
of messages, which are counted and then lost.

What the proof carries is where everything lies: `place` is the front of the buffer up to the
message cursor, in which the open elements hold the list of their size slots. In a message the
buffer ends with the type tags in reverse, and there is always enough room between
them and the arguments to put them where they belong.
-/

namespace Aoo.Osc

open Lib

/-! ## Where the elements lie -/

/-- The offset of the innermost element's size slot, and the front of the buffer. -/
def place (done : List UInt8) : List (List UInt8) → Nat × List UInt8
  | [] => (0, done)
  | [e] => (0, done ++ e)
  | e :: f :: es =>
    let outer := place done (f :: es)
    (outer.2.length, outer.2 ++ (hostBytes outer.1 ++ e))

variable {done e x : List UInt8} {es : List (List UInt8)}

/-- What is written goes to the innermost element. -/
theorem place_extend : place done ((e ++ x) :: es) =
    ((place done (e :: es)).1, (place done (e :: es)).2 ++ x) := by
  cases es with
  | nil => exact congrArg (Prod.mk 0) (List.append_assoc done e x).symm
  | cons f es =>
    simp only [place, List.append_assoc]

/-- The slot for the size lies in what has been written. -/
theorem place_slot_le (done : List UInt8) (es : List (List UInt8)) :
    (place done es).1 ≤ (place done es).2.length := by
  cases es with
  | nil => exact Nat.zero_le _
  | cons e es =>
    cases es with
    | nil => exact Nat.zero_le _
    | cons f es =>
      rw [place, List.length_append]
      exact Nat.le_add_right _ _

/-- A number takes four bytes. -/
theorem hostBytes_length (v : Nat) : (hostBytes v).length = 4 := by
  rw [hostBytes, List.length_reverse, toBytes_length]

/-- It is read as it was written. -/
theorem hostValue_hostBytes {v : Nat} (h : v < 2 ^ 32) : hostValue (hostBytes v) = v := by
  rw [hostValue, hostBytes, List.reverse_reverse, fromBytes_toBytes]
  exact Nat.mod_eq_of_lt h

/-- The bytes in front of the message cursor. -/
theorem place_length (done : List UInt8) (es : List (List UInt8)) :
    (place done es).2.length = done.length + (es.map List.length).sum + 4 * (es.length - 1) := by
  induction es with
  | nil => rfl
  | cons e es ih =>
    cases es with
    | nil =>
      rw [place, List.length_append]
      rfl
    | cons f es =>
      rw [place, List.length_append, List.length_append, hostBytes_length, ih]
      simp only [List.map_cons, List.sum_cons, List.length_cons]
      omega

/-- An open element inside another one does not start at the beginning of the buffer. -/
theorem place_pos (done : List UInt8) {f : List UInt8} (es : List (List UInt8)) (hf : f ≠ []) :
    0 < (place done (f :: es)).2.length := by
  have hpos := List.length_pos_iff.mpr hf
  rw [place_length, List.map_cons, List.sum_cons]
  omega

/-! ## The simulation -/

namespace OutboundPacketStream

variable {s : OutboundPacketStream} {i n : Nat}

/-- Bytes inside the buffer can be written. -/
theorem store_ok {bs : List UInt8} (h : i + bs.length ≤ s.buffer.length) :
    s.store i bs = .ok { s with buffer := writeAt s.buffer i bs } :=
  if_pos h

/-- Bytes inside the buffer can be read. -/
theorem load_ok (h : i + n ≤ s.buffer.length) : s.load i n = .ok ((s.buffer.drop i).take n) :=
  if_pos h

/-- `CheckForAvailable…` finds enough room. -/
theorem check_ok (h : ¬ n > s.buffer.length) : s.check n = .ok () :=
  if_neg h

/-- Without room it throws. -/
theorem check_thrown (h : n > s.buffer.length) : s.check n = .error (.thrown .outOfBufferMemory) :=
  if_pos h

end OutboundPacketStream

namespace Draft

/-- What every draft keeps. -/
structure Ok (d : Draft) : Prop where
  nonempty : ∀ e ∈ d.opened, e ≠ []
  inElement : d.inMessage = true → d.opened ≠ []
  arguments : d.tags = [] → d.arguments = []

/-- The bytes that are taken are those of the finished elements and the open ones. -/
theorem used_eq (d : Draft) : d.used = (place d.done d.opened).2.length :=
  (place_length ..).symm

@[simp] theorem close_capacity (d : Draft) : d.close.capacity = d.capacity := by
  unfold close
  split <;> rfl

@[simp] theorem close_tags (d : Draft) : d.close.tags = d.tags := by
  unfold close
  split <;> rfl

@[simp] theorem close_arguments (d : Draft) : d.close.arguments = d.arguments := by
  unfold close
  split <;> rfl

@[simp] theorem close_inMessage (d : Draft) : d.close.inMessage = d.inMessage := by
  unfold close
  split <;> rfl

/-- The elements around another one are not empty, and stay so. -/
theorem close_nonempty {d : Draft} (h : ∀ e ∈ d.opened.tail, e ≠ []) :
    ∀ e ∈ d.close.opened, e ≠ [] := by
  intro e he
  unfold close at he
  split at he
  next hopened =>
    rw [hopened] at he
    cases he
  next => cases he
  next x f es hopened =>
    rw [hopened] at h
    have hf : f ≠ [] := h f (List.mem_cons_self ..)
    rcases List.mem_cons.mp he with rfl | he
    · rw [List.append_assoc]
      exact List.append_ne_nil_of_left_ne_nil hf _
    · exact h e (List.mem_cons_of_mem _ he)

/-- A new element takes the slot for its size, and what it begins with. -/
theorem begin_used (d : Draft) (contents : List UInt8) :
    (d.begin contents).used = d.used + d.slotSize + contents.length := by
  unfold used slotSize begin
  dsimp only
  cases d.opened with
  | nil =>
    simp only [List.map_cons, List.sum_cons, List.length_cons, List.map_nil, List.sum_nil,
      List.length_nil, if_true]
    omega
  | cons e es =>
    simp only [List.map_cons, List.sum_cons, List.length_cons, reduceCtorEq, if_false]
    omega

end Draft

/-- The stream `s` has written the draft `d`. -/
structure Refines (s : OutboundPacketStream) (d : Draft) : Prop extends d.Ok where
  capacity : s.buffer.length = d.capacity
  slot : s.elementSizePtr = if d.opened = [] then none else some (place d.done d.opened).1
  cursor : s.messageCursor = d.used
  argument : s.argumentCurrent = d.used + d.arguments.length
  typeTags : s.typeTagsCurrent + d.tags.length = d.capacity
  progress : s.messageIsInProgress = d.inMessage
  inside : d.used + d.arguments.length ≤ d.capacity
  contents : (place d.done d.opened).2 <+: s.buffer
  message : d.inMessage = true → ∃ free, s.buffer =
    (place d.done d.opened).2 ++ (d.arguments ++ (free ++ d.tags.reverse)) ∧
      pad4 (d.tags.length + 2) ≤ free.length + d.tags.length

namespace Refines

variable {s : OutboundPacketStream} {d : Draft}

/-- The tags are counted from the end of the buffer. -/
theorem typeTagsCount (h : Refines s d) : s.typeTagsCount = d.tags.length := by
  have hcapacity := h.capacity
  have htags := h.typeTags
  unfold OutboundPacketStream.typeTagsCount OutboundPacketStream.capacity
  omega

/-- `Size()` -/
theorem size_eq (h : Refines s d) : s.size = d.size := by
  rw [OutboundPacketStream.size, Draft.size, h.argument, h.progress, h.typeTagsCount]

/-- Inside a bundle an element has a slot for its size. -/
theorem slotSize_eq (h : Refines s d) : s.slotSize = d.slotSize := by
  rw [OutboundPacketStream.slotSize, Draft.slotSize, h.slot]
  split
  next => rfl
  next => rfl

/-- In a message there is room for the type tags in front of the arguments. -/
theorem size_le (h : Refines s d) : d.size ≤ d.capacity := by
  unfold Draft.size
  split
  next hmessage =>
    obtain ⟨free, hbuffer, hroom⟩ := h.message hmessage
    have hlength := congrArg List.length hbuffer
    rw [h.capacity, List.length_append, List.length_append, List.length_append,
      List.length_reverse, ← d.used_eq] at hlength
    omega
  next => exact h.inside

/-- The stream is ready when no element is open. -/
theorem isReady_eq (h : Refines s d) : s.isReady = decide (d.opened = []) := by
  rw [OutboundPacketStream.isReady, h.progress, h.slot]
  split
  next hopened =>
    have hmessage : d.inMessage = false := Bool.eq_false_iff.mpr fun hc => h.inElement hc hopened
    rw [hmessage, decide_eq_true hopened]
    rfl
  next hopened =>
    rw [decide_eq_false hopened, Option.isNone_some, Bool.and_false]

/-- A new element: its size slot, if it is inside another one, and what it starts with. -/
theorem begin_ok (h : Refines s d) {contents : List UInt8}
    (hfit : d.used + d.slotSize + contents.length ≤ d.capacity) :
    ∃ s₁, s.beginElement = .ok s₁ ∧
      s₁.store s₁.messageCursor contents =
        .ok { s₁ with buffer := writeAt s₁.buffer s₁.messageCursor contents } ∧
      s₁.messageCursor + contents.length = (d.begin contents).used ∧
      s₁.elementSizePtr = some (place d.done (contents :: d.opened)).1 ∧
      s₁.capacity = d.capacity ∧ s₁.typeTagsCurrent = s.typeTagsCurrent ∧
      s₁.messageIsInProgress = s.messageIsInProgress ∧
      (writeAt s₁.buffer s₁.messageCursor contents).length = d.capacity ∧
      (place d.done (contents :: d.opened)).2 <+: writeAt s₁.buffer s₁.messageCursor contents := by
  have hused := d.used_eq
  have hnew : (d.begin contents).used = (place d.done (contents :: d.opened)).2.length :=
    (d.begin contents).used_eq
  have hcontents := h.contents
  have hslot := h.slot
  unfold Draft.slotSize at hfit
  rw [hnew]
  cases hopened : d.opened with
  | nil =>
    rw [hopened] at hused hcontents hslot hfit
    rw [if_pos rfl] at hslot hfit
    let s₁ : OutboundPacketStream := { s with elementSizePtr := some 0 }
    have hbegin : s.beginElement = .ok s₁ := by rw [OutboundPacketStream.beginElement, hslot]
    have hin : s₁.messageCursor + contents.length ≤ s₁.buffer.length := by
      show s.messageCursor + contents.length ≤ s.buffer.length
      rw [h.cursor, h.capacity]
      omega
    refine ⟨s₁, hbegin, OutboundPacketStream.store_ok hin, ?_, rfl, h.capacity, rfl, rfl, ?_, ?_⟩
    · show s.messageCursor + contents.length = (d.done ++ contents).length
      rw [h.cursor, hused, List.length_append]
      rfl
    · rw [writeAt_length hin]
      exact h.capacity
    · show d.done ++ contents <+: writeAt s.buffer s.messageCursor contents
      rw [h.cursor, hused]
      exact append_prefix_writeAt hcontents contents
  | cons e es =>
    rw [hopened] at hused hcontents hslot hfit
    rw [if_neg (List.cons_ne_nil e es)] at hslot hfit
    have hhost : s.messageCursor + (hostBytes (place d.done (e :: es)).1).length ≤ s.buffer.length := by
      rw [hostBytes_length, h.cursor, h.capacity]
      omega
    let s₁ : OutboundPacketStream := { s with
      buffer := writeAt s.buffer s.messageCursor (hostBytes (place d.done (e :: es)).1)
      elementSizePtr := some s.messageCursor
      messageCursor := s.messageCursor + 4 }
    have hbegin : s.beginElement = .ok s₁ := by
      rw [OutboundPacketStream.beginElement, hslot]
      dsimp only
      rw [OutboundPacketStream.store_ok hhost]
      rfl
    have hlength : s₁.buffer.length = d.capacity := (writeAt_length hhost).trans h.capacity
    have hin : s₁.messageCursor + contents.length ≤ s₁.buffer.length := by
      rw [hlength]
      show s.messageCursor + 4 + contents.length ≤ d.capacity
      rw [h.cursor]
      omega
    have hfront := append_prefix_writeAt hcontents (hostBytes (place d.done (e :: es)).1)
    have hcursor : s₁.messageCursor =
        ((place d.done (e :: es)).2 ++ hostBytes (place d.done (e :: es)).1).length := by
      rw [List.length_append, hostBytes_length, ← hused, ← h.cursor]
    rw [← hused, ← h.cursor] at hfront
    refine ⟨s₁, hbegin, OutboundPacketStream.store_ok hin, ?_, ?_, hlength, rfl, rfl, ?_, ?_⟩
    · rw [place, ← List.append_assoc, List.length_append, ← hcursor]
    · rw [place, ← hused, ← h.cursor]
    · rw [writeAt_length hin]
      exact hlength
    · rw [place, ← List.append_assoc, hcursor]
      exact append_prefix_writeAt hfront contents

end Refines

/-- The stream does what the draft does. -/
inductive Matches : Except Failure OutboundPacketStream → Except Exception Draft → Prop
  | ok {s : OutboundPacketStream} {d : Draft} (h : Refines s d) : Matches (.ok s) (.ok d)
  | thrown (e : Exception) : Matches (.error (.thrown e)) (.error e)

namespace Refines

variable {s : OutboundPacketStream} {d : Draft}

/-- `BeginBundle` is the same on the buffer as on the draft, exceptions included. -/
theorem beginBundle (h : Refines s d) (timeTag : BitVec 64) :
    Matches (s.step (.beginBundle timeTag)) (d.step (.beginBundle timeTag)) := by
  show Matches (s.beginBundle timeTag) (d.step (.beginBundle timeTag))
  unfold OutboundPacketStream.beginBundle Draft.step
  dsimp only
  rw [h.progress, h.size_eq, h.slotSize_eq]
  split
  next => exact .thrown _
  next hmessage =>
    have hbuffer := h.capacity
    split
    next hfull =>
      rw [OutboundPacketStream.check_thrown (hbuffer ▸ hfull)]
      exact .thrown _
    next hfit =>
      rw [OutboundPacketStream.check_ok (hbuffer ▸ hfit)]
      have hlength : (bundleTag ++ fromUInt64 timeTag).length = 16 := by
        rw [List.length_append, fromUInt64_length]
        rfl
      have hin : d.used + d.slotSize + (bundleTag ++ fromUInt64 timeTag).length ≤ d.capacity := by
        unfold Draft.size at hfit
        rw [hlength]
        omega
      obtain ⟨s₁, hbegin, hstore, hused, hslot, hcapacity, htags, hprogress, hnew, hplace⟩ :=
        h.begin_ok hin
      have hroom := hplace.length_le
      simp only [bind, Except.bind, pure, Except.pure, hbegin, hstore]
      rw [hlength] at hused
      refine .ok ⟨⟨fun e he => ?_, fun hc => absurd hc hmessage, fun _ => rfl⟩, hnew, ?_, hused,
        hused, ?_, hprogress.trans h.progress, ?_, hplace, fun hc => absurd hc hmessage⟩
      · rcases List.mem_cons.mp he with rfl | he
        · exact List.ne_nil_of_length_pos (by rw [hlength]; omega)
        · exact h.nonempty e he
      · exact hslot.trans (if_neg (List.cons_ne_nil _ _)).symm
      · show s₁.typeTagsCurrent + d.tags.length = d.capacity
        rw [htags]
        exact h.typeTags
      · show (d.begin _).used + 0 ≤ d.capacity
        rw [(d.begin _).used_eq]
        exact hnew ▸ hroom

/-- So is `BeginMessage`. -/
theorem beginMessage (h : Refines s d) (address : CString) :
    Matches (s.step (.beginMessage address)) (d.step (.beginMessage address)) := by
  show Matches (s.beginMessage address) (d.step (.beginMessage address))
  unfold OutboundPacketStream.beginMessage Draft.step
  dsimp only
  rw [h.progress, h.size_eq, h.slotSize_eq]
  split
  next => exact .thrown _
  next hmessage =>
    have hbuffer := h.capacity
    split
    next hfull =>
      rw [OutboundPacketStream.check_thrown (hbuffer ▸ hfull)]
      exact .thrown _
    next hfit =>
      rw [OutboundPacketStream.check_ok (hbuffer ▸ hfit)]
      have hlength := address.padded_length
      have hsize : d.used ≤ d.size := Nat.le_trans (Nat.le_add_right _ _) (Nat.le_add_right _ _)
      have hin : d.used + d.slotSize + address.padded.length ≤ d.capacity := by omega
      obtain ⟨s₁, hbegin, hstore, hused, hslot, hcapacity, htags, hprogress, hnew, hplace⟩ :=
        h.begin_ok hin
      have hroom : (d.begin address.padded).used + 4 ≤ d.capacity := by
        rw [Draft.begin_used]
        omega
      simp only [bind, Except.bind, pure, Except.pure, hbegin, hstore]
      refine .ok ⟨⟨fun e he => ?_, fun _ => List.cons_ne_nil _ _, fun _ => rfl⟩, hnew, ?_, hused,
        hused, ?_, rfl, ?_, hplace, fun _ => ?_⟩
      · rcases List.mem_cons.mp he with rfl | he
        · refine List.ne_nil_of_length_pos ?_
          rw [hlength]
          exact Nat.lt_of_lt_of_le (Nat.succ_pos _) (le_pad4 _)
        · exact h.nonempty e he
      · exact hslot.trans (if_neg (List.cons_ne_nil _ _)).symm
      · exact hnew
      · show (d.begin _).used + 0 ≤ d.capacity
        omega
      · obtain ⟨free, hfree⟩ := hplace
        refine ⟨free, ?_, ?_⟩
        · show writeAt s₁.buffer s₁.messageCursor address.padded =
            (place d.done (address.padded :: d.opened)).2 ++ ([] ++ (free ++ [].reverse))
          rw [List.reverse_nil, List.append_nil, List.nil_append, hfree]
        · have htotal := congrArg List.length hfree
          rw [List.length_append, hnew] at htotal
          have hplaced : (d.begin address.padded).used =
              (place d.done (address.padded :: d.opened)).2.length := Draft.used_eq _
          have htags : pad4 (0 + 2) = 4 := rfl
          show pad4 (0 + 2) ≤ free.length + 0
          omega

/-- The tag is put down at the end of the buffer and the bytes behind the other arguments. -/
theorem put_buffer (front arguments free tags : List UInt8) (a : Arg)
    (hroom : a.size + 1 ≤ free.length) :
    ∃ rest, rest.length + a.size + 1 = free.length ∧
      writeAt (writeAt (front ++ (arguments ++ (free ++ tags)))
          (front.length + arguments.length + free.length - 1) [a.tag])
        (front.length + arguments.length) a.bytes =
          front ++ ((arguments ++ a.bytes) ++ (rest ++ a.tag :: tags)) := by
  have hsplit : (free.take a.size).length = a.size := by
    rw [List.length_take]
    omega
  rcases List.eq_nil_or_concat' (free.drop a.size) with hnil | ⟨rest, x, hrest⟩
  · have := congrArg List.length hnil
    rw [List.length_drop, List.length_nil] at this
    omega
  · have hfree : free = free.take a.size ++ (rest ++ [x]) := by
      rw [← hrest, List.take_append_drop]
    have hlength := congrArg List.length hfree
    rw [List.length_append, List.length_append, hsplit, List.length_singleton] at hlength
    refine ⟨rest, by omega, ?_⟩
    have hold : front ++ (arguments ++ (free ++ tags)) =
        (front ++ (arguments ++ (free.take a.size ++ rest))) ++ ([x] ++ tags) := by
      conv_lhs => rw [hfree]
      simp only [List.append_assoc]
    have hpos : front.length + arguments.length + free.length - 1 =
        (front ++ (arguments ++ (free.take a.size ++ rest))).length := by
      rw [List.length_append, List.length_append, List.length_append, hsplit]
      omega
    have hmid : (front ++ (arguments ++ (free.take a.size ++ rest))) ++ ([a.tag] ++ tags) =
        (front ++ arguments) ++ (free.take a.size ++ (rest ++ a.tag :: tags)) := by
      simp only [List.append_assoc, List.singleton_append]
    rw [hold, hpos, writeAt_append (by rfl), hmid, ← List.length_append,
      writeAt_append (a.bytes_length.trans hsplit.symm), List.append_assoc, List.append_assoc]

/-- An argument is the same on both: its tag goes to the end of the buffer, its data to the
message. -/
theorem arg (h : Refines s d) (a : Arg) : Matches (s.step (.arg a)) (d.step (.arg a)) := by
  show Matches (s.put a) (d.step (.arg a))
  unfold OutboundPacketStream.put Draft.step
  dsimp only
  rw [h.argument, h.typeTagsCount]
  have hbuffer := h.capacity
  split
  next hfull =>
    rw [OutboundPacketStream.check_thrown (hbuffer ▸ hfull)]
    exact .thrown _
  next hfit =>
    rw [OutboundPacketStream.check_ok (hbuffer ▸ hfit)]
    have htags := h.typeTags
    have hslot := le_pad4 (d.tags.length + 3)
    have htag : s.typeTagsCurrent - 1 + [a.tag].length ≤ s.buffer.length := by
      rw [List.length_singleton]
      omega
    have hput : s.putTag a.tag = .ok { s with
        buffer := writeAt s.buffer (s.typeTagsCurrent - 1) [a.tag]
        typeTagsCurrent := s.typeTagsCurrent - 1 } := by
      rw [OutboundPacketStream.putTag, if_neg (by omega), OutboundPacketStream.store_ok htag]
      rfl
    let b₁ := writeAt s.buffer (s.typeTagsCurrent - 1) [a.tag]
    have hlength₁ : b₁.length = d.capacity := (writeAt_length htag).trans hbuffer
    have hargs : d.used + d.arguments.length + a.bytes.length ≤ b₁.length := by
      rw [hlength₁, a.bytes_length]
      omega
    simp only [bind, Except.bind, pure, Except.pure, hput, h.argument]
    rw [OutboundPacketStream.store_ok (by exact hargs)]
    have hused := d.used_eq
    refine .ok ⟨⟨h.nonempty, h.inElement, fun hc => ?_⟩, ?_, h.slot, h.cursor, ?_, ?_, h.progress, ?_,
      ?_, fun hmessage => ?_⟩
    · exact absurd hc (List.append_ne_nil_of_right_ne_nil _ (List.cons_ne_nil _ _))
    · exact (writeAt_length hargs).trans hlength₁
    · show d.used + d.arguments.length + a.bytes.length = d.used + (d.arguments ++ a.bytes).length
      rw [List.length_append, Nat.add_assoc]
    · show s.typeTagsCurrent - 1 + (d.tags ++ [a.tag]).length = d.capacity
      rw [List.length_append, List.length_singleton]
      omega
    · show d.used + (d.arguments ++ a.bytes).length ≤ d.capacity
      rw [List.length_append, a.bytes_length]
      omega
    · refine prefix_writeAt (prefix_writeAt h.contents ?_ _) ?_ _
      · rw [← hused]
        omega
      · rw [← hused]
        exact Nat.le_add_right _ _
    · obtain ⟨free, hfree, hroom⟩ := h.message hmessage
      have htotal := congrArg List.length hfree
      rw [hbuffer, List.length_append, List.length_append, List.length_append,
        List.length_reverse, ← hused] at htotal
      obtain ⟨rest, hrest, hwritten⟩ := put_buffer (place d.done d.opened).2 d.arguments free
        d.tags.reverse a (by omega)
      refine ⟨rest, ?_, ?_⟩
      · show writeAt b₁ (d.used + d.arguments.length) a.bytes =
          (place d.done d.opened).2 ++ ((d.arguments ++ a.bytes) ++ (rest ++ (d.tags ++ [a.tag]).reverse))
        have hcurrent : s.typeTagsCurrent - 1 =
            (place d.done d.opened).2.length + d.arguments.length + free.length - 1 := by omega
        rw [List.reverse_append, List.reverse_singleton, List.singleton_append, ← hwritten, ← hfree,
          ← hcurrent, hused]
      · show pad4 ((d.tags ++ [a.tag]).length + 2) ≤ rest.length + (d.tags ++ [a.tag]).length
        rw [List.length_append, List.length_singleton]
        show pad4 (d.tags.length + 3) ≤ rest.length + (d.tags.length + 1)
        omega

/-- The innermost element ends at the message cursor. Its size slot tells where the one of the
element around it is. -/
theorem endElement_ok {bs e : List UInt8} {es : List (List UInt8)} (hsmall : s.buffer.length < 2 ^ 32)
    (hslot : s.elementSizePtr = some (place bs (e :: es)).1)
    (hcursor : s.messageCursor = (place bs (e :: es)).2.length)
    (hcontents : (place bs (e :: es)).2 <+: s.buffer) (hne : ∀ f ∈ es, f ≠ [])
    {c : Draft} (hc : c = { d with done := bs, opened := e :: es }.close) :
    ∃ b, s.endElement = .ok { s with
        buffer := b
        elementSizePtr := if c.opened = [] then none else some (place c.done c.opened).1 } ∧
      b.length = s.buffer.length ∧ (place c.done c.opened).2 <+: b ∧
      c.used = s.messageCursor := by
  rw [c.used_eq]
  cases es with
  | nil =>
    subst hc
    refine ⟨s.buffer, ?_, rfl, hcontents, hcursor.symm⟩
    rw [OutboundPacketStream.endElement, hslot]
    rfl
  | cons f es =>
    subst hc
    have hpos := place_pos bs es (hne f (List.mem_cons_self ..))
    have hle := place_slot_le bs (f :: es)
    obtain ⟨rest, hrest⟩ := hcontents
    -- the buffer, with the slot between the outer element and this one
    have hbuffer : s.buffer = (place bs (f :: es)).2 ++
        (hostBytes (place bs (f :: es)).1 ++ (e ++ rest)) := by
      rw [← hrest, place]
      simp only [List.append_assoc]
    have hlength := congrArg List.length hbuffer
    rw [List.length_append, List.length_append, List.length_append, hostBytes_length] at hlength
    have hload : s.load (place bs (f :: es)).2.length 4 = .ok (hostBytes (place bs (f :: es)).1) := by
      rw [OutboundPacketStream.load_ok (by omega), hbuffer, List.drop_left,
        List.take_left' (hostBytes_length _)]
    have hsize : s.messageCursor - (place bs (f :: es)).2.length - 4 = e.length := by
      rw [hcursor, place, List.length_append, List.length_append, hostBytes_length]
      omega
    have hin : (place bs (f :: es)).2.length + (toBytes 4 e.length).length ≤ s.buffer.length := by
      rw [toBytes_length]
      omega
    have hwritten : writeAt s.buffer (place bs (f :: es)).2.length (toBytes 4 e.length) =
        (place bs (f :: es)).2 ++ (toBytes 4 e.length ++ (e ++ rest)) := by
      conv_lhs => rw [hbuffer]
      exact writeAt_append ((toBytes_length ..).trans (hostBytes_length _).symm)
    have hclosed : (place bs ((f ++ toBytes 4 e.length ++ e) :: es)) =
        ((place bs (f :: es)).1, (place bs (f :: es)).2 ++ (toBytes 4 e.length ++ e)) := by
      rw [List.append_assoc, place_extend]
    refine ⟨writeAt s.buffer (place bs (f :: es)).2.length (toBytes 4 e.length), ?_,
      writeAt_length hin, ?_, ?_⟩
    · rw [OutboundPacketStream.endElement, hslot, place]
      dsimp only
      rw [if_neg (by omega), hload, hsize]
      simp only [bind, Except.bind, pure, Except.pure, OutboundPacketStream.store_ok hin]
      rw [hostValue_hostBytes (by omega)]
      exact congrArg (fun p => Except.ok { s with
        buffer := writeAt s.buffer (place bs (f :: es)).2.length (toBytes 4 e.length)
        elementSizePtr := p }) ((if_neg (List.cons_ne_nil _ _)).trans
          (congrArg (fun r => some r.1) hclosed)).symm
    · show (place bs ((f ++ toBytes 4 e.length ++ e) :: es)).2 <+: _
      rw [hclosed, hwritten]
      exact ⟨rest, by simp only [List.append_assoc]⟩
    · show (place bs ((f ++ toBytes 4 e.length ++ e) :: es)).2.length = s.messageCursor
      rw [hclosed, hcursor, place]
      simp only [List.length_append, toBytes_length, hostBytes_length]

/-- `EndBundle` writes the size into the slot. -/
theorem endBundle (hsmall : d.capacity < 2 ^ 32) (h : Refines s d) :
    Matches (s.step .endBundle) (d.step .endBundle) := by
  show Matches s.endBundle (d.step .endBundle)
  unfold OutboundPacketStream.endBundle Draft.step
  dsimp only
  rw [h.progress]
  have hslot := h.slot
  cases hopened : d.opened with
  | nil =>
    rw [hopened, if_pos rfl] at hslot
    rw [hslot, if_pos Option.isNone_none, if_pos rfl]
    exact .thrown _
  | cons e es =>
    rw [hopened, if_neg (List.cons_ne_nil e es)] at hslot
    rw [if_neg (List.cons_ne_nil e es), hslot, Option.isNone_some, if_neg Bool.false_ne_true]
    split
    next => exact .thrown _
    next hmessage =>
      have hne : ∀ f ∈ es, f ≠ [] := fun f hf =>
        h.nonempty f (hopened ▸ List.mem_cons_of_mem e hf)
      have hcursor := h.cursor
      rw [d.used_eq, hopened] at hcursor
      obtain ⟨b, hend, hlength, hplace, hused⟩ := endElement_ok (d := d) (h.capacity ▸ hsmall) hslot
        hcursor (hopened ▸ h.contents) hne (c := d.close) (by rw [← hopened])
      rw [hend]
      rw [h.cursor] at hused
      refine .ok ⟨⟨Draft.close_nonempty (by rw [hopened]; exact hne), ?_, ?_⟩, ?_, rfl,
        h.cursor.trans hused.symm, ?_, ?_, ?_, ?_, hplace, ?_⟩
      · rw [d.close_inMessage]
        exact fun hc => absurd hc hmessage
      · rw [d.close_tags, d.close_arguments]
        exact h.arguments
      · rw [d.close_capacity]
        exact hlength.trans h.capacity
      · rw [hused, d.close_arguments]
        exact h.argument
      · rw [d.close_tags, d.close_capacity]
        exact h.typeTags
      · rw [d.close_inMessage]
        exact h.progress
      · rw [hused, d.close_arguments, d.close_capacity]
        exact h.inside
      · rw [d.close_inMessage]
        exact fun hc => absurd hc hmessage

/-- `EndMessage` puts the type tags in front of the arguments. -/
theorem moveTypeTags_ok (h : Refines s d) (hmessage : d.inMessage = true) :
    ∃ b, s.moveTypeTags = .ok { s with
        buffer := b
        typeTagsCurrent := b.length
        messageCursor := d.used + (tagString d.tags ++ d.arguments).length } ∧
      b.length = d.capacity ∧
      (place d.done d.opened).2 ++ (tagString d.tags ++ d.arguments) <+: b := by
  obtain ⟨free, hfree, hroom⟩ := h.message hmessage
  have hused := d.used_eq
  have htypeTags := h.typeTags
  have hlength := congrArg List.length hfree
  rw [h.capacity, List.length_append, List.length_append, List.length_append, List.length_reverse,
    ← hused] at hlength
  unfold OutboundPacketStream.moveTypeTags
  rw [h.typeTagsCount, h.cursor, h.argument, hused]
  split
  next hzero =>
    -- no type tags, hence no arguments
    have htags : d.tags = [] := List.eq_nil_of_length_eq_zero hzero
    have harguments := h.arguments htags
    rw [htags] at hroom hlength htypeTags
    rw [htags, harguments, List.append_nil]
    have hfour : (tagString []).length = 4 := tagString_length []
    have hin : (place d.done d.opened).2.length + (tagString []).length ≤ s.buffer.length := by
      have hpad : pad4 (([] : List UInt8).length + 2) = 4 := rfl
      rw [h.capacity, hfour]
      omega
    refine ⟨writeAt s.buffer (place d.done d.opened).2.length (tagString []), ?_,
      (writeAt_length hin).trans h.capacity, append_prefix_writeAt h.contents _⟩
    have hend : (writeAt s.buffer (place d.done d.opened).2.length (tagString [])).length =
        s.typeTagsCurrent := (writeAt_length hin).trans (h.capacity.trans htypeTags.symm)
    rw [OutboundPacketStream.store_ok hin, hfour, hend]
    simp only [bind, Except.bind, pure, Except.pure, h.cursor, hused, h.argument, harguments]
  next hpos =>
    have hslot := tagString_length d.tags
    -- the type tags are at the end of the buffer, the last one first
    have htags : s.load s.typeTagsCurrent d.tags.length = .ok d.tags.reverse := by
      have hdrop : s.buffer.drop s.typeTagsCurrent = d.tags.reverse := by
        have hfront : s.typeTagsCurrent =
            ((place d.done d.opened).2 ++ (d.arguments ++ free)).length := by
          rw [List.length_append, List.length_append]
          omega
        rw [hfree, ← List.append_assoc d.arguments, ← List.append_assoc, hfront, List.drop_left]
      rw [OutboundPacketStream.load_ok (by rw [h.capacity]; omega), hdrop,
        List.take_of_length_le (by rw [List.length_reverse])]
    have hsize : (place d.done d.opened).2.length + d.arguments.length -
        (place d.done d.opened).2.length = d.arguments.length := by omega
    have harguments : s.load (place d.done d.opened).2.length d.arguments.length =
        .ok d.arguments := by
      rw [OutboundPacketStream.load_ok (by rw [h.capacity]; omega), hfree, List.drop_left,
        List.take_left]
    -- the buffer when the arguments are moved and the type tags are not yet written
    let b₁ := writeAt s.buffer
      ((place d.done d.opened).2.length + pad4 (d.tags.length + 2)) d.arguments
    have hin₁ : (place d.done d.opened).2.length + pad4 (d.tags.length + 2) + d.arguments.length ≤
        s.buffer.length := by
      rw [h.capacity]
      omega
    have hlength₁ : b₁.length = d.capacity := (writeAt_length hin₁).trans h.capacity
    have hin₂ : (place d.done d.opened).2.length + (tagString d.tags).length ≤ b₁.length := by
      rw [hlength₁, hslot]
      omega
    have hmoved : d.arguments <+:
        b₁.drop ((place d.done d.opened).2.length + (tagString d.tags).length) := by
      have htake : (s.buffer.take ((place d.done d.opened).2.length +
          pad4 (d.tags.length + 2))).length =
            (place d.done d.opened).2.length + pad4 (d.tags.length + 2) := by
        rw [List.length_take]
        omega
      rw [hslot]
      refine ⟨s.buffer.drop ((place d.done d.opened).2.length + pad4 (d.tags.length + 2) +
        d.arguments.length), ?_⟩
      show _ = List.drop _ (writeAt s.buffer _ d.arguments)
      rw [writeAt, List.append_assoc, List.drop_left' htake]
    have hfront : (place d.done d.opened).2 <+: b₁ :=
      prefix_writeAt h.contents (Nat.le_add_right _ _) _
    refine ⟨writeAt b₁ (place d.done d.opened).2.length (tagString d.tags), ?_,
      (writeAt_length hin₂).trans hlength₁, ?_⟩
    · rw [htags]
      simp only [bind, Except.bind, pure, Except.pure, hsize, harguments, h.cursor, hused, h.argument,
        OutboundPacketStream.store_ok hin₁, List.reverse_reverse]
      rw [OutboundPacketStream.store_ok (by exact hin₂), List.length_append, hslot]
      rfl
    · obtain ⟨rest, hrest⟩ := hmoved
      rw [writeAt, ← List.prefix_iff_eq_take.mp hfront, ← hrest]
      exact ⟨rest, by simp only [List.append_assoc]⟩

/-- `EndMessage` moves the tags between address and arguments. -/
theorem endMessage (hsmall : d.capacity < 2 ^ 32) (h : Refines s d) :
    Matches (s.step .endMessage) (d.step .endMessage) := by
  show Matches s.endMessage (d.step .endMessage)
  unfold OutboundPacketStream.endMessage Draft.step
  dsimp only
  rw [h.progress]
  split
  next hmessage =>
    obtain ⟨e, es, hopened⟩ := List.exists_cons_of_ne_nil (h.inElement hmessage)
    obtain ⟨b, hmove, hlength, hplace⟩ := h.moveTypeTags_ok hmessage
    have hslot := h.slot
    have hused := d.used_eq
    have hsize := h.size_le
    rw [hopened, if_neg (List.cons_ne_nil e es)] at hslot
    rw [hopened] at hused hplace
    -- the element with all that belongs to it
    let x := tagString d.tags ++ d.arguments
    have hextend : place d.done ((e ++ x) :: es) =
        ((place d.done (e :: es)).1, (place d.done (e :: es)).2 ++ x) := place_extend
    let s₁ : OutboundPacketStream := { s with
      buffer := b
      typeTagsCurrent := b.length
      messageCursor := d.used + x.length
      argumentCurrent := d.used + x.length }
    have hdraft : (d.extend x).close = { d with done := d.done, opened := (e ++ x) :: es }.close := by
      rw [Draft.extend, hopened]
    have hne : ∀ f ∈ es, f ≠ [] := fun f hf => h.nonempty f (hopened ▸ List.mem_cons_of_mem e hf)
    obtain ⟨b', hend, hlength', hplace', hused'⟩ := endElement_ok (s := s₁) (d := d)
      (hlength ▸ hsmall) (hslot.trans (congrArg (fun r => some r.1) hextend).symm)
      (by rw [hextend, List.length_append, ← hused]) (hextend ▸ hplace) hne hdraft
    simp only [bind, Except.bind, pure, Except.pure, hmove]
    rw [show OutboundPacketStream.endElement _ = _ from hend]
    have hx : d.used + x.length ≤ d.capacity := by
      unfold Draft.size at hsize
      rw [if_pos hmessage] at hsize
      rw [List.length_append, tagString_length]
      omega
    refine .ok ⟨⟨?_, fun hc => absurd hc Bool.false_ne_true, fun _ => rfl⟩, ?_, rfl, hused'.symm,
      hused'.symm, ?_, rfl, ?_, hplace', fun hc => absurd hc Bool.false_ne_true⟩
    · refine Draft.close_nonempty ?_
      rw [Draft.extend, hopened]
      exact hne
    · show b'.length = (d.extend x).close.capacity
      rw [hdraft, Draft.close_capacity]
      exact hlength'.trans hlength
    · show b.length + 0 = (d.extend x).close.capacity
      rw [hdraft, Draft.close_capacity]
      exact hlength
    · show (d.extend x).close.used + 0 ≤ (d.extend x).close.capacity
      rw [Nat.add_zero, hused', hdraft, Draft.close_capacity]
      exact hx
  next => exact .thrown _

/-- **Every operator** does what it does to the draft. -/
theorem step (hsmall : d.capacity < 2 ^ 32) (h : Refines s d) (op : Op) :
    Matches (s.step op) (d.step op) := by
  cases op with
  | beginBundle timeTag => exact h.beginBundle timeTag
  | endBundle => exact h.endBundle hsmall
  | beginMessage address => exact h.beginMessage address
  | endMessage => exact h.endMessage hsmall
  | arg a => exact h.arg a

/-- A new stream is an empty draft. -/
theorem create (buffer : List UInt8) : Refines (.create buffer) { capacity := buffer.length } where
  nonempty _ he := absurd he List.not_mem_nil
  inElement hc := absurd hc Bool.false_ne_true
  arguments _ := rfl
  capacity := rfl
  slot := rfl
  cursor := rfl
  argument := rfl
  typeTags := rfl
  progress := rfl
  inside := Nat.zero_le _
  contents := List.nil_prefix
  message hc := absurd hc Bool.false_ne_true

end Refines

/-! ## Results -/

/-- The buffer never grows. -/
theorem Draft.step_capacity {d d' : Draft} {op : Op} (h : d.step op = .ok d') :
    d'.capacity = d.capacity := by
  cases op with
  | endBundle =>
    simp only [step] at h
    split at h
    next => cases h
    next =>
      split at h
      next => cases h
      next =>
        obtain rfl := Except.ok.inj h
        exact d.close_capacity
  | endMessage =>
    simp only [step] at h
    split at h
    next =>
      obtain rfl := Except.ok.inj h
      show (d.extend _).close.capacity = d.capacity
      rw [close_capacity]
      unfold extend
      split <;> rfl
    next => cases h
  | arg a =>
    simp only [step] at h
    split at h
    next => cases h
    next =>
      obtain rfl := Except.ok.inj h
      rfl
  | _ =>
    simp only [step] at h
    split at h
    next => cases h
    next =>
      split at h
      next => cases h
      next =>
        obtain rfl := Except.ok.inj h
        rfl

/-- The draft after an operator, or the same draft after an exception. -/
def Draft.attempt (d : Draft) (op : Op) : Draft :=
  match d.step op with
  | .ok d' => d'
  | .error _ => d

/-- An operation that throws changes neither side. -/
theorem attempt_refines {s : OutboundPacketStream} {d : Draft} (hsmall : d.capacity < 2 ^ 32)
    (h : Refines s d) (op : Op) :
    ∃ s', s.attempt op = .ok s' ∧ Refines s' (d.attempt op) ∧ (d.attempt op).capacity = d.capacity := by
  have hmatches := h.step hsmall op
  unfold OutboundPacketStream.attempt Draft.attempt
  cases hd : d.step op with
  | ok d' =>
    rw [hd] at hmatches
    generalize s.step op = r at hmatches
    cases hmatches with
    | ok h' => exact ⟨_, rfl, h', Draft.step_capacity hd⟩
  | error e =>
    rw [hd] at hmatches
    generalize s.step op = r at hmatches
    cases hmatches with
    | thrown => exact ⟨s, rfl, h, rfl⟩

/-- A run without exceptions, or up to the first one. -/
theorem Refines.run {s : OutboundPacketStream} {d : Draft} (hsmall : d.capacity < 2 ^ 32)
    (h : Refines s d) (ops : List Op) :
    Matches (Lib.run OutboundPacketStream.step s ops) (Lib.run Draft.step d ops) := by
  induction ops generalizing s d with
  | nil => exact .ok h
  | cons op ops ih =>
    have hmatches := h.step hsmall op
    rw [Lib.run, Lib.run]
    cases hd : d.step op with
    | ok d' =>
      rw [hd] at hmatches
      generalize s.step op = r at hmatches
      cases hmatches with
      | ok h' => exact ih ((Draft.step_capacity hd).symm ▸ hsmall) h'
    | error e =>
      rw [hd] at hmatches
      generalize s.step op = r at hmatches
      cases hmatches with
      | thrown => exact .thrown e

namespace Draft

variable {d : Draft}

/-- What is missing to a finished packet: the end of the message, if one is in progress, and of each
bundle that is open. -/
def finish (d : Draft) : List Op :=
  if d.inMessage then .endMessage :: List.replicate (d.opened.length - 1) .endBundle
  else List.replicate d.opened.length .endBundle

/-- An element that is closed takes the same room as before. -/
theorem close_used (d : Draft) : d.close.used = d.used := by
  unfold close
  split
  next => rfl
  next e hopened => simp [used, hopened]
  next e f es hopened =>
    simp only [used, hopened, List.map_cons, List.sum_cons, List.length_cons, List.length_append,
      toBytes_length]
    omega

/-- One element is closed at a time. -/
theorem close_length (d : Draft) : d.close.opened.length = d.opened.length - 1 := by
  unfold close
  split
  next hopened => rw [hopened]; rfl
  next e hopened => rw [hopened]; rfl
  next e f es hopened => rw [hopened]; rfl

/-- All open bundles can be ended. -/
theorem run_endBundles (n : Nat) (hlength : d.opened.length = n) (hmessage : d.inMessage = false) :
    ∃ d', Lib.run step d (List.replicate n .endBundle) = .ok d' ∧ d'.opened = [] ∧
      d'.done.length = d.used := by
  induction n generalizing d with
  | zero =>
    have hopened := List.eq_nil_of_length_eq_zero hlength
    refine ⟨d, rfl, hopened, ?_⟩
    rw [used, hopened]
    rfl
  | succ n ih =>
    have hopened : d.opened ≠ [] := List.ne_nil_of_length_eq_add_one hlength
    obtain ⟨d', hrun, hopened', hdone⟩ := ih (d := d.close)
      (by rw [close_length, hlength]; rfl) ((close_inMessage d).trans hmessage)
    refine ⟨d', ?_, hopened', hdone.trans d.close_used⟩
    rw [List.replicate_succ, Lib.run, step, if_neg hopened, if_neg (by simp [hmessage])]
    exact hrun

/-- **The finished packet takes what was said before**, if there are no arguments outside of a
message. -/
theorem run_finish (h : d.Ok) (hinside : d.inMessage = true ∨ d.arguments = []) :
    ∃ d', Lib.run step d d.finish = .ok d' ∧ d'.opened = [] ∧ d'.done.length = d.size := by
  unfold finish size
  cases hmessage : d.inMessage with
  | false =>
    obtain hnone : d.arguments = [] := hinside.resolve_left (by simp [hmessage])
    obtain ⟨d', hrun, hopened, hdone⟩ := run_endBundles d.opened.length rfl hmessage
    refine ⟨d', hrun, hopened, hdone.trans ?_⟩
    rw [hnone]
    rfl
  | true =>
    obtain ⟨e, es, hopened⟩ := List.exists_cons_of_ne_nil (h.inElement hmessage)
    -- the draft when the message has ended
    let x := tagString d.tags ++ d.arguments
    have hused : (d.extend x).used = d.used + d.arguments.length + pad4 (d.tags.length + 2) := by
      unfold extend used
      rw [hopened]
      simp only [x, List.map_cons, List.sum_cons, List.length_cons, List.length_append,
        tagString_length]
      omega
    have hlength : (d.extend x).opened.length = d.opened.length := by
      rw [extend, hopened]
      rfl
    obtain ⟨d', hrun, hnil, hdone⟩ := run_endBundles
      (d := { (d.extend x).close with tags := [], arguments := [], inMessage := false })
      (d.opened.length - 1) ((close_length _).trans (congrArg (· - 1) hlength)) rfl
    refine ⟨d', ?_, hnil, hdone.trans ((close_used _).trans hused)⟩
    rw [if_pos rfl, Lib.run, step, if_pos hmessage]
    exact hrun

end Draft

/-- **No operator ever leaves the buffer**, in whatever order they are called and whichever exceptions
are caught on the way. `Size()` is never more than there is, and when the stream is ready the buffer
starts with the packet. If no argument was put outside of a message since the last element, `Size()`
is the size of the packet when all that is open has been ended. (An argument outside of a message is
counted, although no packet has it.) Sizes of blobs are not negative here. -/
theorem stream_refines (buffer : List UInt8) (hsmall : buffer.length < 2 ^ 32) (ops : List Op) :
    ∃ s d, run OutboundPacketStream.attempt (.create buffer) ops = .ok s ∧
      ops.foldl Draft.attempt { capacity := buffer.length } = d ∧
      s.size ≤ buffer.length ∧ s.buffer.length = buffer.length ∧
      s.isReady = decide (d.opened = []) ∧ (s.isReady = true → d.done <+: s.buffer) ∧
      (s.messageIsInProgress = true ∨ s.argumentCurrent = s.messageCursor →
        ∃ s' d', run OutboundPacketStream.step s d.finish = .ok s' ∧
          run Draft.step d d.finish = .ok d' ∧ s'.isReady = true ∧ d'.done <+: s'.buffer ∧
          d'.done.length = s.size) := by
  have hrun : ∀ (ops : List Op) {s : OutboundPacketStream} {d : Draft}, d.capacity = buffer.length →
      Refines s d → ∃ s', run OutboundPacketStream.attempt s ops = .ok s' ∧
        Refines s' (ops.foldl Draft.attempt d) ∧
        (ops.foldl Draft.attempt d).capacity = buffer.length := by
    intro ops
    induction ops with
    | nil =>
      intro s d hcapacity h
      exact ⟨s, rfl, h, hcapacity⟩
    | cons op ops ih =>
      intro s d hcapacity h
      obtain ⟨s₁, hattempt, h₁, hcapacity₁⟩ := attempt_refines (hcapacity ▸ hsmall) h op
      obtain ⟨s', hrun, h', hcapacity'⟩ := ih (hcapacity₁.trans hcapacity) h₁
      refine ⟨s', ?_, h', hcapacity'⟩
      rw [run, hattempt]
      exact hrun
  obtain ⟨s, hs, h, hcapacity⟩ := hrun ops rfl (.create buffer)
  generalize ops.foldl Draft.attempt { capacity := buffer.length } = d at h hcapacity
  have hdone : ∀ {s d}, Refines s d → d.opened = [] → d.done <+: s.buffer := by
    intro s d h hopened
    have hcontents := h.contents
    rw [hopened] at hcontents
    exact hcontents
  refine ⟨s, d, hs, rfl, ?_, h.capacity.trans hcapacity, h.isReady_eq, fun hc => ?_,
    fun hinside => ?_⟩
  · rw [h.size_eq]
    exact h.size_le.trans_eq hcapacity
  · rw [h.isReady_eq, decide_eq_true_eq] at hc
    exact hdone h hc
  · have hdraft : d.inMessage = true ∨ d.arguments = [] := by
      rw [h.progress, h.argument, h.cursor] at hinside
      exact hinside.imp id fun heq => List.eq_nil_of_length_eq_zero (by omega)
    obtain ⟨d', hfinish, hopened, hlength⟩ := Draft.run_finish h.toOk hdraft
    have hmatches := h.run (hcapacity ▸ hsmall) d.finish
    rw [hfinish] at hmatches
    generalize hr : run OutboundPacketStream.step s d.finish = r at hmatches
    cases hmatches with
    | ok h' =>
      refine ⟨_, d', rfl, hfinish, ?_, hdone h' hopened, hlength.trans h.size_eq.symm⟩
      rw [h'.isReady_eq, hopened]
      rfl

/-- An argument outside of a message, two exceptions, and a message in a bundle that is not
ended. -/
def carelessOps : List Op :=
  [.arg .infinitum, .endMessage, .beginBundle 1, .beginMessage ⟨[47, 97], slashA_noZero⟩,
    .arg .infinitum, .beginBundle 2]

theorem stream_refines_careless :
    ∃ (s s' : OutboundPacketStream) (d' : Draft),
      run OutboundPacketStream.attempt (.create (List.replicate 36 0)) carelessOps = .ok s ∧
      s.size = 28 ∧ run OutboundPacketStream.step s [.endMessage, .endBundle] = .ok s' ∧
      run Draft.step (carelessOps.foldl Draft.attempt { capacity := 36 })
        [.endMessage, .endBundle] = .ok d' ∧
      s'.isReady = true ∧ d'.done <+: s'.buffer ∧ d'.done.length = s.size := by
  obtain ⟨s, d, hs, hd, -, -, -, -, hfinish⟩ :=
    stream_refines (List.replicate 36 0) (by decide) carelessOps
  have hcareless : (run OutboundPacketStream.attempt (.create (List.replicate 36 0)) carelessOps).map
      (fun s => (s.messageIsInProgress, s.size)) = .ok (true, 28) := by
    decide
  rw [hs] at hcareless
  injection hcareless with hcareless
  obtain ⟨hmessage, hsize⟩ := Prod.mk.inj hcareless
  have hends : d.finish = [.endMessage, .endBundle] := by
    rw [← hd]
    rfl
  obtain ⟨s', d', hrun, hdraft, hready, hfront, hlength⟩ := hfinish (.inl hmessage)
  rw [hends] at hrun hdraft
  exact ⟨s, s', d', hs, hsize, hrun, hd ▸ hdraft, hready, hfront, hlength⟩

end Aoo.Osc
