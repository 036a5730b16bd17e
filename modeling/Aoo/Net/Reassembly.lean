import Aoo.Net.Fragment

/-!
# Reassembly of a message

Before a copy of a frame comes to `add_frame`, the parser of its format has read it. In the OSC
form it refuses a frame without content (`accepted_osc_iff`), so that a last frame that was cut
empty is lost until it is resent, and an empty message never arrives. In the binary form an empty
last frame is added, and the message is complete without its end.

Main result: `reassemble_eq_iff`, when the receiver ends up with the content.
-/

namespace Aoo.Net

open Lib

/-! ## What the parsers let through -/

theorem arrivalSlice_le {size ms : Nat} (hms : 0 < ms) (a : Arrival) :
    (arrivalSlice size ms a).2 ≤ 2 * ms := by
  have hle := @size_le_numFrames size ms hms
  have hmod := Nat.mod_lt size hms
  by_cases hn : numFrames size ms ≤ 1
  · rw [arrivalSlice_single hn]
    have hone : numFrames size ms * ms ≤ 1 * ms := Nat.mul_le_mul_right ms hn
    simp only
    omega
  · by_cases ha : a.2 = numFrames size ms - 1
    · obtain ⟨resent, i⟩ := a
      subst ha
      rw [arrivalSlice_last (by omega)]
      have hsum : numFrames size ms * ms = (numFrames size ms - 2) * ms + 2 * ms := by
        rw [← Nat.add_mul, Nat.sub_add_cancel (by omega)]
      split <;> simp only <;> omega
    · rw [arrivalSlice_inner (by omega) ha]
      simp only
      omega

/-- The arrivals that a parser does not refuse: in the OSC form those with content. -/
def accepted (size ms : Nat) (binary : Bool) (a : Arrival) : Bool :=
  binary || decide ((arrivalSlice size ms a).2 ≠ 0)

theorem arrivalPacket_eq {m : Message} {ms q : Nat} {a : Arrival} (hms : 0 < ms ∧ ms ≤ 4096)
    (hsize : m.data.data.length < 2147483648) (hq : q < 2147483648) (ha : Arrives m ms a)
    (binary : Bool) :
    arrivalPacket m q ms binary a =
      if accepted m.data.data.length ms binary a then some (arrivalFrame m q ms a).received
      else none := by
  have hf := arrivalFrame_frameOf q ha.index (fun h1 => (ha.resent h1).2)
  have hle := @arrivalSlice_le m.data.data.length ms hms.1 a
  have hlen := hf.data_length
  have hnil : (arrivalFrame m q ms a).data ≠ [] ↔
      (arrivalSlice m.data.data.length ms a).2 ≠ 0 := by
    rw [← hlen, ne_eq, ne_eq, List.length_eq_zero_iff]
  rw [arrivalPacket, MessagePacket.parsed_eq (hf.wire hms.1 hsize hq) (by omega)]
  simp only [accepted, hnil, Bool.or_eq_true, decide_eq_true_eq]

/-- The packets that the receiver puts together. -/
theorem filterMap_arrivalPacket {m : Message} {ms q : Nat} {arrivals : List Arrival}
    (hms : 0 < ms ∧ ms ≤ 4096) (hn : numFrames m.data.data.length ms ≤ 256) (hq : q < 2147483648)
    (harr : ∀ a ∈ arrivals, Arrives m ms a) (binary : Bool) :
    arrivals.filterMap (arrivalPacket m q ms binary) =
      (arrivals.filter (accepted m.data.data.length ms binary)).map
        fun a => (arrivalFrame m q ms a).received := by
  induction arrivals with
  | nil => rfl
  | cons a arrivals ih =>
    obtain ⟨ha, harr⟩ := List.forall_mem_cons.mp harr
    have hpacket := arrivalPacket_eq hms (size_lt_of_frames hms hn) hq ha binary
    rw [List.filterMap_cons, List.filter_cons, hpacket, ih harr]
    split_ifs with haccepted
    · rfl
    · rfl

/-- An OSC parser refuses a last frame that `send_message` has cut empty, and an
empty message. -/
theorem accepted_osc_iff {size ms : Nat} (hms : 0 < ms) (a : Arrival) :
    accepted size ms false a = true ↔
      0 < size ∧ (numFrames size ms ≤ 1 ∨ size % ms ≠ 0 ∨ a ≠ (false, numFrames size ms - 1)) := by
  rw [accepted, Bool.false_or, decide_eq_true_eq]
  by_cases hn : numFrames size ms ≤ 1
  · rw [arrivalSlice_single hn]
    simp only
    omega
  · have hfull : (numFrames size ms - 2 + 1) * ms ≤ size := numFrames_mul_le (by omega)
    rw [Nat.add_mul, Nat.one_mul] at hfull
    rw [and_iff_right (by omega), or_iff_right hn]
    obtain ⟨resent, i⟩ := a
    by_cases ha : i = numFrames size ms - 1
    · subst ha
      rw [arrivalSlice_last (by omega)]
      cases resent with
      | true =>
        refine iff_of_true ?_ (Or.inr fun h => Bool.false_ne_true (congrArg Prod.fst h).symm)
        rw [if_pos rfl]
        simp only
        omega
      | false =>
        rw [if_neg Bool.false_ne_true]
        simp
    · rw [arrivalSlice_inner (by omega) ha]
      refine iff_of_true ?_ (Or.inr fun h => ha (congrArg Prod.snd h))
      simp only
      omega

/-- When the content of a message gets through: a binary copy of its last frame
that comes first is not cut empty, while any copy of it will do in the OSC form,
where empty frames are refused. -/
def GetsThrough (size ms : Nat) (binary : Bool) (arrivals : List Arrival) : Prop :=
  if binary then
    numFrames size ms ≤ 1 ∨ size % ms ≠ 0 ∨
      arrivals.find? (fun a => a.2 == numFrames size ms - 1) = some (true, numFrames size ms - 1)
  else
    0 < size ∧ (numFrames size ms ≤ 1 ∨ size % ms ≠ 0 ∨ (true, numFrames size ms - 1) ∈ arrivals)

section Accepted

variable {size ms : Nat} {arrivals : List Arrival}

theorem accepted_binary (arrivals : List Arrival) :
    arrivals.filter (accepted size ms true) = arrivals :=
  List.filter_eq_self.mpr fun _ _ => rfl

/-- No accepted copy of the last frame. -/
theorem last_refused (hms : 0 < ms) (hsize : 0 < size)
    (hgets : ¬ GetsThrough size ms false arrivals) :
    1 < numFrames size ms ∧ size % ms = 0 ∧
      ∀ a ∈ arrivals.filter (accepted size ms false), a.2 ≠ numFrames size ms - 1 := by
  rw [GetsThrough, if_neg Bool.false_ne_true, and_iff_right hsize, not_or, not_or, not_not] at hgets
  obtain ⟨hn, hmod, hnone⟩ := hgets
  refine ⟨not_le.mp hn, hmod, fun a ha hlast => ?_⟩
  obtain ⟨hmem, haccepted⟩ := List.mem_filter.mp ha
  have hnot := (((accepted_osc_iff hms a).mp haccepted).2.resolve_left hn).resolve_left
    (not_not.mpr hmod)
  obtain ⟨resent, i⟩ := a
  cases resent with
  | true => exact hnone (hlast ▸ hmem)
  | false => exact hnot (Prod.ext rfl hlast)

/-- When every frame is accepted at least once. -/
theorem all_accepted_iff (hms : 0 < ms)
    (hall : ∀ i < wireFrames size ms, ∃ a ∈ arrivals, a.2 = i) (binary : Bool) :
    (∀ i < wireFrames size ms, ∃ a ∈ arrivals.filter (accepted size ms binary), a.2 = i) ↔
      binary = true ∨ GetsThrough size ms binary arrivals := by
  cases binary with
  | true =>
    rw [accepted_binary]
    exact iff_of_true hall (Or.inl rfl)
  | false =>
    rw [or_iff_right Bool.false_ne_true]
    constructor
    · intro hevery
      by_contra hgets
      rcases Nat.eq_zero_or_pos size with hzero | hsize
      · obtain ⟨a, ha, -⟩ := hevery 0 (by unfold wireFrames; omega)
        have haccepted := ((accepted_osc_iff hms a).mp (List.mem_filter.mp ha).2).1
        omega
      · obtain ⟨hn, -, hnone⟩ := last_refused hms hsize hgets
        obtain ⟨a, ha, hlast⟩ := hevery (numFrames size ms - 1) (by unfold wireFrames; omega)
        exact hnone a ha hlast
    · intro hgets i hi
      rw [GetsThrough, if_neg Bool.false_ne_true] at hgets
      obtain ⟨hsize, hlast⟩ := hgets
      obtain ⟨a, ha, hindex⟩ := hall i hi
      by_cases haccepted : accepted size ms false a = true
      · exact ⟨a, List.mem_filter.mpr ⟨ha, haccepted⟩, hindex⟩
      · -- a copy of the last frame that is cut empty: there is a resent one as well
        rw [accepted_osc_iff hms, and_iff_right hsize, not_or, not_or, not_not, not_not] at haccepted
        obtain ⟨hn, hmod, heq⟩ := haccepted
        have hresent := (hlast.resolve_left hn).resolve_left (not_not.mpr hmod)
        refine ⟨(true, numFrames size ms - 1), List.mem_filter.mpr ⟨hresent, ?_⟩, ?_⟩
        · rw [accepted_osc_iff hms]
          exact ⟨hsize, Or.inr (Or.inr fun h => Bool.false_ne_true (congrArg Prod.fst h).symm)⟩
        · rw [← hindex, heq]

/-- When the accepted copies cover the message. -/
theorem covered_accepted_iff (hms : 0 < ms)
    (hall : ∀ i < wireFrames size ms, ∃ a ∈ arrivals, a.2 = i) (binary : Bool) :
    (arrivals.filter (accepted size ms binary) ≠ [] ∧
      ∀ j < size, Covered size ms (arrivals.filter (accepted size ms binary)) j) ↔
      GetsThrough size ms binary arrivals := by
  cases binary with
  | true =>
    obtain ⟨a, ha, -⟩ := hall 0 (by unfold wireFrames; omega)
    rw [accepted_binary, and_iff_right (List.ne_nil_of_mem ha), GetsThrough, if_pos rfl]
    exact covered_all_iff hms hall
  | false =>
    constructor
    · rintro ⟨hsome, hcovered⟩
      by_contra hgets
      rcases Nat.eq_zero_or_pos size with hzero | hsize
      · obtain ⟨a, ha⟩ := List.exists_mem_of_ne_nil _ hsome
        have haccepted := ((accepted_osc_iff hms a).mp (List.mem_filter.mp ha).2).1
        omega
      · -- nothing that was accepted reaches the last byte
        obtain ⟨hn, hmod, hnone⟩ := last_refused hms hsize hgets
        obtain ⟨a, hf, hlow, hhigh⟩ := hcovered (size - 1) (by omega)
        have hlast := hnone a (List.mem_of_find?_eq_some hf)
        rw [arrivalSlice_inner hn hlast] at hlow hhigh
        have hnum : numFrames size ms = size / ms := by
          rw [numFrames, hmod]
          rfl
        have hdiv := Nat.div_add_mod size ms
        rw [← hnum, hmod, Nat.mul_comm] at hdiv
        simp only at hlow hhigh
        rcases Nat.lt_or_ge a.2 (numFrames size ms - 1) with hlt | hge
        · have hmul : (a.2 + 1) * ms ≤ (numFrames size ms - 1) * ms :=
            Nat.mul_le_mul_right ms hlt
          have hsum : (numFrames size ms - 1) * ms + ms = numFrames size ms * ms := by
            rw [← Nat.succ_mul, Nat.succ_eq_add_one, Nat.sub_add_cancel (by omega)]
          rw [Nat.add_mul, Nat.one_mul] at hmul
          omega
        · have hmul : numFrames size ms * ms ≤ a.2 * ms := Nat.mul_le_mul_right ms (by omega)
          omega
    · intro hgets
      have hevery := (all_accepted_iff hms hall false).mpr (Or.inr hgets)
      obtain ⟨a, ha, -⟩ := hevery 0 (by unfold wireFrames; omega)
      refine ⟨List.ne_nil_of_mem ha, (covered_all_iff hms hevery).mpr ?_⟩
      by_cases hn : numFrames size ms ≤ 1
      · exact Or.inl hn
      · by_cases hmod : size % ms = 0
        · -- the first accepted copy of the last frame is a resent one
          obtain ⟨c, hc, hlast⟩ := hevery (numFrames size ms - 1) (by unfold wireFrames; omega)
          refine Or.inr (Or.inr ?_)
          cases hfind : (arrivals.filter (accepted size ms false)).find?
              (fun a => a.2 == numFrames size ms - 1) with
          | none => exact absurd (by simpa using hlast) (List.find?_eq_none.mp hfind c hc)
          | some d =>
            have hindex : d.2 = numFrames size ms - 1 := by simpa using List.find?_some hfind
            have haccepted := (List.mem_filter.mp (List.mem_of_find?_eq_some hfind)).2
            have hnot := (((accepted_osc_iff hms d).mp haccepted).2.resolve_left hn).resolve_left
              (not_not.mpr hmod)
            obtain ⟨resent, i⟩ := d
            cases resent with
            | true => rw [← hindex]
            | false => exact (hnot (Prod.ext rfl hindex)).elim
        · exact Or.inr (Or.inl hmod)

end Accepted

/-- The receiver puts together whatever copies it accepts. -/
theorem reassemble_rebuilt {m : Message} {ms : Nat} (q : Nat) {arrivals : List Arrival}
    (hn : numFrames m.data.data.length ms ≤ 256) (harr : ∀ c ∈ arrivals, Arrives m ms c)
    (hsome : arrivals ≠ []) :
    ∃ r, reassemble m.reliable (arrivals.map fun a => (arrivalFrame m q ms a).received) = .ok r ∧
      Rebuilt m ms arrivals r := by
  obtain ⟨a, rest, rfl⟩ := List.exists_cons_of_ne_nil hsome
  obtain ⟨ha, hrest⟩ := List.forall_mem_cons.mp harr
  obtain ⟨r₁, hr₁, h₁⟩ := addNewMessage_rebuilt q hn ha
  obtain ⟨r, hr, h⟩ := run_addLaterFrame_rebuilt q hn
    (fun c hc => by rw [List.mem_singleton.mp hc]; exact ha) hrest h₁
  refine ⟨r, ?_, h⟩
  rw [List.map_cons, reassemble, hr₁]
  exact hr

theorem Rebuilt.complete_iff {m : Message} {ms : Nat} {seen : List Arrival} {r : ReceivedMessage}
    (h : Rebuilt m ms seen r) :
    r.complete = true ↔ ∀ i < wireFrames m.data.data.length ms, ∃ c ∈ seen, c.2 = i := by
  obtain ⟨b, hb, -⟩ := h.data
  rw [ReceivedMessage.complete, hb, Option.isSome_some, Bool.true_and, decide_eq_true_eq,
    Finset.eq_empty_iff_forall_notMem]
  refine forall_congr' fun i => ?_
  rw [h.frames, not_and]
  refine imp_congr_right fun _ => ?_
  simp only [not_forall, ne_eq, not_not, exists_prop]

/-- **Fragmentation is undone unless the last frame was cut empty.** Let every
frame of a message arrive at least once, in any order, as it was first sent or
(if the message is reliable) as it was resent. The receiver then never faults,
and its buffer is the content of the message if and only if the content gets
through: the message has at most one frame, or its size is not a multiple of the
frame size, or there is a resent copy of the last frame, which must be the first
one in the binary form. In the OSC form the message is complete in these cases
only, and an empty one does not get through. -/
theorem reassemble_eq_iff (m : Message) (packetSize : PacketSize) (binary : Bool) (q : Nat)
    (arrivals : List Arrival) (hq : q < 2147483648)
    (hn : numFrames m.data.data.length (maxsize packetSize binary) ≤ 256)
    (harr : ∀ a ∈ arrivals, Arrives m (maxsize packetSize binary) a)
    (hall : ∀ i < wireFrames m.data.data.length (maxsize packetSize binary),
      ∃ a ∈ arrivals, a.2 = i) :
    ∃ r, reassemble m.reliable
        (arrivals.filterMap (arrivalPacket m q (maxsize packetSize binary) binary)) = .ok r ∧
      (r.complete = true ↔ binary = true ∨
        GetsThrough m.data.data.length (maxsize packetSize binary) binary arrivals) ∧
      (r.data = some (m.data.data.map some) ↔
        GetsThrough m.data.data.length (maxsize packetSize binary) binary arrivals) := by
  have hms : 0 < maxsize packetSize binary ∧ maxsize packetSize binary ≤ 4096 :=
    ⟨maxsize_pos packetSize binary, maxsize_le packetSize binary⟩
  rw [filterMap_arrivalPacket hms hn hq harr, ← all_accepted_iff hms.1 hall,
    ← covered_accepted_iff hms.1 hall]
  have hacc : ∀ c ∈ arrivals.filter
      (accepted m.data.data.length (maxsize packetSize binary) binary),
      Arrives m (maxsize packetSize binary) c :=
    fun c hc => harr c (List.mem_of_mem_filter hc)
  generalize arrivals.filter (accepted m.data.data.length (maxsize packetSize binary) binary) = acc
    at hacc ⊢
  by_cases hnone : acc = []
  · -- only an empty OSC message: nothing is ever put together
    subst hnone
    refine ⟨_, rfl, iff_of_false Bool.false_ne_true fun h => ?_, iff_of_false ?_ fun h => h.1 rfl⟩
    · obtain ⟨a, ha, -⟩ := h 0 (by unfold wireFrames; omega)
      cases ha
    · rintro ⟨⟩
  · obtain ⟨r, hr, h⟩ := reassemble_rebuilt q hn hacc hnone
    obtain ⟨b, hb, hfill⟩ := h.data
    refine ⟨r, hr, h.complete_iff, ?_⟩
    rw [hb, Option.some.injEq, hfill.eq_iff, and_iff_right hnone]

/-- A message of one byte more than a frame arrives intact, here with its last
frame resent and coming first. -/
theorem reassemble_111_bytes :
    ∃ r, reassemble true ([(true, 1), (false, 0)].filterMap
        (arrivalPacket ⟨0, { type := 0, data := List.replicate 111 7 }, true, by decide⟩ 0 110
          true)) = .ok r ∧
      r.data = some ((List.replicate 111 7).map some) := by
  obtain ⟨r, hr, -, hiff⟩ := reassemble_eq_iff
    ⟨0, { type := 0, data := List.replicate 111 7 }, true, by decide⟩
    ⟨150, by decide, by decide⟩ true 0 [(true, 1), (false, 0)] (by decide) (by decide)
    (by
      intro a ha
      rcases List.mem_cons.mp ha with rfl | ha
      · exact ⟨by decide, fun _ => ⟨rfl, by decide⟩⟩
      · rw [List.mem_singleton.mp ha]
        exact ⟨by decide, fun h => by cases h⟩)
    (by decide)
  exact ⟨r, hr, hiff.mpr (Or.inr (Or.inl (by decide)))⟩

/-- A message of exactly two frames does not: its second half is never written. -/
theorem reassemble_220_bytes :
    (reassemble true ([(false, 0), (false, 1)].filterMap
        (arrivalPacket ⟨0, { type := 0, data := List.replicate 220 7 }, true, by decide⟩ 0
          (maxsize ⟨150, by decide, by decide⟩ true) true))).map
            (fun r => (r.complete, r.data)) =
      .ok (true, some (List.replicate 110 (some 7) ++ List.replicate 110 none)) := by
  decide +kernel

end Aoo.Net
