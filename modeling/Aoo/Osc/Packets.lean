import Aoo.Osc.Writing

/-!
# Whole packets

A packet is a message or a bundle, which has a time tag and more elements. `text` is what it is on
the wire, and `ops` how it is streamed. The stream then holds `text`, if it fits into the buffer, and
throws `OutOfBufferMemoryException` if it does not (`packet_written`): no packet is refused that
would fit, although the checks are made at every operator.

The induction is on the packet, with the elements of a bundle on the side. What it carries
is that a finished element has been appended to the open one around it, so that the draft
is the one from before with more in it.
-/

namespace Aoo.Osc

open Lib

inductive Element
  | message (addressPattern : CString) (args : List Arg)
  | bundle (timeTag : BitVec 64) (elements : List Element)

/-- The operators for a whole message. -/
def messageOps (addressPattern : CString) (args : List Arg) : List Op :=
  .beginMessage addressPattern :: (args.map .arg ++ [.endMessage])

mutual

/-- The bytes of a packet. -/
def Element.text : Element → List UInt8
  | .message addressPattern args => messageText addressPattern args
  | .bundle timeTag elements => bundleTag ++ fromUInt64 timeTag ++ Element.contents elements

/-- The elements of a bundle, each with its size in front. -/
def Element.contents : List Element → List UInt8
  | [] => []
  | e :: es => toBytes 4 e.text.length ++ e.text ++ Element.contents es

end

mutual

/-- How a packet is streamed. -/
def Element.ops : Element → List Op
  | .message addressPattern args => messageOps addressPattern args
  | .bundle timeTag elements => .beginBundle timeTag :: (Element.allOps elements ++ [.endBundle])

def Element.allOps : List Element → List Op
  | [] => []
  | e :: es => e.ops ++ Element.allOps es

end

namespace Draft

/-- Arguments that fit, all together, are put behind each other; otherwise one of them fails. -/
theorem run_args (args : List Arg) (ops : List Op) : ∀ d : Draft, d.inMessage = true →
    d.size ≤ d.capacity →
    Lib.run step d (args.map .arg ++ ops) =
      if d.used + d.arguments.length + (args.map Arg.size).sum +
          pad4 (d.tags.length + args.length + 2) ≤ d.capacity then
        Lib.run step { d with
          tags := d.tags ++ args.map Arg.tag
          arguments := d.arguments ++ args.flatMap Arg.bytes } ops
      else .error .outOfBufferMemory := by
  induction args with
  | nil =>
    intro d hmessage hsize
    unfold size at hsize
    rw [if_pos hmessage] at hsize
    rw [if_pos (by simpa using hsize)]
    simp only [List.map_nil, List.nil_append, List.append_nil, List.flatMap_nil]
  | cons a args ih =>
    intro d hmessage hsize
    have hmono : pad4 (d.tags.length + 3) ≤ pad4 (d.tags.length + (args.length + 1) + 2) := by
      unfold pad4
      omega
    rw [List.map_cons, List.cons_append, Lib.run, step]
    simp only [List.map_cons, List.sum_cons, List.length_cons, List.flatMap_cons]
    by_cases hfull : d.used + d.arguments.length + a.size + pad4 (d.tags.length + 3) > d.capacity
    · rw [if_pos hfull, if_neg (by omega)]
    · rw [if_neg hfull]
      dsimp only
      rw [ih { d with tags := d.tags ++ [a.tag], arguments := d.arguments ++ a.bytes } hmessage]
      · have hused : used { d with
            tags := d.tags ++ [a.tag], arguments := d.arguments ++ a.bytes } = d.used := rfl
        have hsum : d.used + (d.arguments ++ a.bytes).length + (args.map Arg.size).sum +
            pad4 ((d.tags ++ [a.tag]).length + args.length + 2) =
            d.used + d.arguments.length + (a.size + (args.map Arg.size).sum) +
              pad4 (d.tags.length + (args.length + 1) + 2) := by
          rw [List.length_append, List.length_append, List.length_singleton, a.bytes_length,
            Nat.add_assoc d.tags.length, Nat.add_comm 1]
          omega
        rw [hused]
        dsimp only
        rw [hsum, List.append_assoc, List.append_assoc, List.singleton_append]
      · unfold size
        rw [if_pos hmessage]
        show d.used + (d.arguments ++ a.bytes).length + pad4 ((d.tags ++ [a.tag]).length + 2) ≤
          d.capacity
        rw [List.length_append, List.length_append, List.length_singleton, a.bytes_length]
        show d.used + (d.arguments.length + a.size) + pad4 (d.tags.length + 3) ≤ d.capacity
        omega

/-- Between the elements there are no type tags and no arguments. -/
structure Idle (d : Draft) : Prop where
  inMessage : d.inMessage = false
  tags : d.tags = []
  arguments : d.arguments = []

namespace Idle

variable {d : Draft}

theorem size_eq (h : d.Idle) : d.size = d.used := by
  rw [size, h.arguments, if_neg (by rw [h.inMessage]; exact Bool.false_ne_true)]
  rfl

theorem begin (h : d.Idle) (contents : List UInt8) : (d.begin contents).Idle :=
  ⟨h.inMessage, h.tags, rfl⟩

theorem close (h : d.Idle) : d.close.Idle :=
  ⟨d.close_inMessage.trans h.inMessage, d.close_tags.trans h.tags,
    d.close_arguments.trans h.arguments⟩

theorem close_reset (h : d.Idle) :
    { d.close with tags := [], arguments := [], inMessage := false } = d.close := by
  have hclose := h.close
  calc { d.close with tags := [], arguments := [], inMessage := false }
      = { d.close with
          tags := d.close.tags
          arguments := d.close.arguments
          inMessage := d.close.inMessage } := by
        rw [hclose.inMessage, hclose.tags, hclose.arguments]
    _ = d.close := rfl

end Idle

/-- What is written into a new element before it is closed could have been there from the start. -/
theorem close_extend_begin (d : Draft) {e x contents tags args : List UInt8}
    (h : e ++ x = contents) :
    { (extend { d.begin e with tags := tags, arguments := args, inMessage := true } x).close with
        tags := [], arguments := [], inMessage := false } =
      { (d.begin contents).close with tags := [], arguments := [], inMessage := false } := by
  subst h
  unfold extend begin close
  cases d.opened with
  | nil => rfl
  | cons f es => rfl

/-- A message is one more element, if there is room for it. -/
theorem run_message {d : Draft} (h : d.Idle) (address : CString) (args : List Arg) :
    Lib.run step d (messageOps address args) =
      if d.used + d.slotSize + (messageText address args).length ≤ d.capacity then
        .ok (d.begin (messageText address args)).close
      else .error .outOfBufferMemory := by
  have hsize := h.size_eq
  have htext := messageText_length address args
  have hmono : 4 ≤ pad4 (args.length + 2) := by
    unfold pad4
    omega
  rw [messageOps, Lib.run, step, h.inMessage, if_neg Bool.false_ne_true, hsize]
  by_cases hfull : d.used + d.slotSize + pad4 (address.bytes.length + 1) + 4 > d.capacity
  · rw [if_pos hfull, if_neg (by omega)]
  · rw [if_neg hfull]
    dsimp only
    have hused : used { d.begin address.padded with tags := [], inMessage := true } =
        d.used + d.slotSize + pad4 (address.bytes.length + 1) := by
      rw [← address.padded_length]
      exact d.begin_used address.padded
    rw [run_args args [.endMessage] { d.begin address.padded with tags := [], inMessage := true } rfl]
    · have hsum : used { d.begin address.padded with tags := [], inMessage := true } +
          (d.begin address.padded).arguments.length + (args.map Arg.size).sum +
          pad4 (([] : List UInt8).length + args.length + 2) =
          d.used + d.slotSize + (messageText address args).length := by
        rw [hused, htext, List.length_nil, Nat.zero_add]
        show _ + 0 + _ + _ = _
        omega
      have hlimit : (d.begin address.padded).capacity = d.capacity := rfl
      dsimp only
      rw [hsum, hlimit]
      by_cases hfit : d.used + d.slotSize + (messageText address args).length ≤ d.capacity
      · rw [if_pos hfit, if_pos hfit, Lib.run, step, if_pos rfl]
        refine congrArg Except.ok ((d.close_extend_begin ?_).trans (h.begin _).close_reset)
        rw [messageText, messageBytes, List.append_assoc]
        rfl
      · rw [if_neg hfit, if_neg hfit]
    · show used { d.begin address.padded with tags := [], inMessage := true } + 0 +
        (if true then pad4 2 else 0) ≤ d.capacity
      rw [if_pos rfl, hused]
      exact Nat.le_of_not_gt hfull

/-- An element inside another one ends up behind what is there. -/
theorem close_begin_begin (d : Draft) (c text : List UInt8) :
    ((d.begin c).begin text).close = d.begin (c ++ (toBytes 4 text.length ++ text)) := by
  rw [← List.append_assoc]
  rfl

mutual

/-- A packet is one more element, if there is room for it. -/
theorem run_element (e : Element) {d : Draft} (h : d.Idle) :
    Lib.run step d e.ops =
      if d.used + d.slotSize + e.text.length ≤ d.capacity then .ok (d.begin e.text).close
      else .error .outOfBufferMemory := by
  cases e with
  | message address args => exact run_message h address args
  | bundle timeTag elements =>
    have hhead : (bundleTag ++ fromUInt64 timeTag).length = 16 := by
      rw [List.length_append, fromUInt64_length]
      rfl
    have htext : (Element.bundle timeTag elements).text.length =
        16 + (Element.contents elements).length := by
      rw [Element.text, List.length_append, hhead]
    rw [Element.ops, Lib.run, step, h.inMessage, if_neg Bool.false_ne_true, h.size_eq, htext]
    by_cases hfull : d.used + d.slotSize + 16 > d.capacity
    · rw [if_pos hfull, if_neg (by omega)]
    · rw [if_neg hfull]
      dsimp only
      have hused := d.begin_used (bundleTag ++ fromUInt64 timeTag)
      have hrun := run_elements elements h (bundleTag ++ fromUInt64 timeTag) (by omega)
      rw [hused, hhead] at hrun
      by_cases hfit : d.used + d.slotSize + 16 + (Element.contents elements).length ≤ d.capacity
      · rw [if_pos hfit] at hrun
        rw [run_append _ hrun, if_pos (by omega), Lib.run, step,
          if_neg (show (d.begin _).opened ≠ [] from List.cons_ne_nil _ _), (h.begin _).inMessage,
          if_neg Bool.false_ne_true, Element.text]
        rfl
      · rw [if_neg hfit] at hrun
        rw [run_error_append _ hrun, if_neg (by omega)]

/-- The elements of a bundle are put behind each other, as long as there is room for them. -/
theorem run_elements (es : List Element) {d : Draft} (h : d.Idle) (c : List UInt8)
    (hc : (d.begin c).used ≤ d.capacity) :
    Lib.run step (d.begin c) (Element.allOps es) =
      if (d.begin c).used + (Element.contents es).length ≤ d.capacity then
        .ok (d.begin (c ++ Element.contents es))
      else .error .outOfBufferMemory := by
  cases es with
  | nil =>
    rw [Element.allOps, run_nil, Element.contents, List.append_nil]
    exact (if_pos hc).symm
  | cons e es =>
    have helement := run_element e (h.begin c)
    have hslot : (d.begin c).slotSize = 4 := if_neg (List.cons_ne_nil _ _)
    have hlimit : (d.begin c).capacity = d.capacity := rfl
    have hcontents : (Element.contents (e :: es)).length =
        4 + e.text.length + (Element.contents es).length := by
      rw [Element.contents, List.length_append, List.length_append, toBytes_length]
    have hmore : (d.begin (c ++ (toBytes 4 e.text.length ++ e.text))).used =
        (d.begin c).used + 4 + e.text.length := by
      rw [begin_used, begin_used, List.length_append, List.length_append, toBytes_length]
      omega
    rw [hslot, hlimit] at helement
    rw [Element.allOps, hcontents]
    by_cases hfit : (d.begin c).used + 4 + e.text.length ≤ d.capacity
    · rw [if_pos hfit, close_begin_begin] at helement
      rw [run_append _ helement, run_elements es h _ (hmore ▸ hfit), hmore, Element.contents]
      simp only [List.append_assoc, Nat.add_assoc]
    · rw [if_neg hfit] at helement
      rw [run_error_append _ helement, if_neg (by omega)]

end

end Draft

/-- **A packet that fits is written**, byte for byte, and the stream is ready. One that does not fit
is refused with `OutOfBufferMemoryException`. -/
theorem packet_written (e : Element) (buffer : List UInt8) (hsmall : buffer.length < 2 ^ 32) :
    (e.text.length ≤ buffer.length →
      ∃ s, run OutboundPacketStream.step (.create buffer) e.ops = .ok s ∧ s.isReady = true ∧
        s.size = e.text.length ∧ s.buffer.take s.size = e.text) ∧
    (buffer.length < e.text.length →
      run OutboundPacketStream.step (.create buffer) e.ops =
        .error (.thrown .outOfBufferMemory)) := by
  have hidle : Draft.Idle { capacity := buffer.length } := ⟨rfl, rfl, rfl⟩
  have hmatches := (Refines.create buffer).run hsmall e.ops
  have hused : ({ capacity := buffer.length } : Draft).used +
      ({ capacity := buffer.length } : Draft).slotSize + e.text.length = e.text.length :=
    Nat.zero_add _
  rw [Draft.run_element e hidle, hused] at hmatches
  generalize run OutboundPacketStream.step (.create buffer) e.ops = r at hmatches
  constructor
  · intro hfit
    rw [if_pos hfit] at hmatches
    cases hmatches with
    | ok h =>
      have hsize : _ = e.text.length := h.size_eq.trans (Nat.add_assoc ..)
      refine ⟨_, rfl, h.isReady_eq, hsize, ?_⟩
      rw [hsize]
      exact (List.prefix_iff_eq_take.mp h.contents).symm
  · intro hfull
    rw [if_neg (Nat.not_le_of_lt hfull)] at hmatches
    cases hmatches with
    | thrown => rfl

/-- A bundle with one message, `"/a" 7`, in a buffer of 40 bytes. -/
theorem packet_written_bundle :
    ∃ s, run OutboundPacketStream.step (.create (List.replicate 40 0))
        (Element.bundle 1 [.message ⟨[47, 97], slashA_noZero⟩ [.int32 7]]).ops = .ok s ∧
      s.isReady = true ∧ s.size = 32 ∧
      s.buffer.take s.size = bundleTag ++ [0, 0, 0, 0, 0, 0, 0, 1] ++
        [0, 0, 0, 12] ++ [47, 97, 0, 0, 44, 105, 0, 0, 0, 0, 0, 7] :=
  (packet_written (.bundle 1 [.message ⟨[47, 97], slashA_noZero⟩ [.int32 7]])
    (List.replicate 40 0) (by decide)).1 (by decide)

end Aoo.Osc
