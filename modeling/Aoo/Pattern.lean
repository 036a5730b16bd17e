import Aoo.Binmsg
import Aoo.Lib.BoundedRead

/-!
# What kind of message this is

Two functions look at the front of a packet and say for whom it is: `aoo_parsePattern` for users of
the library, and `parse_pattern` for the client and the server, a copy with the branches in
another order. Both get a pointer and a size. Reads are checked here: a byte behind the end of the
message is the outcome `OutOfBounds`.

The chains of comparisons are lists of message types, in the order of the source. `sscanf` gets a
text, which goes up to its zero byte, wherever in it the id ends, and so does the log. What it
makes of a text is a parameter: the number, which the language leaves open if it does not fit, and
how many bytes it took.

Main result: `classified_iff`. The copy accepts a large header that is cut off, and the text
behind a source or sink is read without regard to the size.
-/

namespace Aoo

open Lib

/-! ## Patterns -/

/-- `kAooMsgDomain`: `/aoo` -/
def kAooMsgDomain : List UInt8 := [0x2f, 0x61, 0x6f, 0x6f]

/-- `kAooMsgSource` and so on: `/src`, `/sink`, `/server`, `/client`, `/peer`, `/relay`. -/
def AooMsgType.pattern : AooMsgType → List UInt8
  | .source => [0x2f, 0x73, 0x72, 0x63]
  | .sink => [0x2f, 0x73, 0x69, 0x6e, 0x6b]
  | .server => [0x2f, 0x73, 0x65, 0x72, 0x76, 0x65, 0x72]
  | .client => [0x2f, 0x63, 0x6c, 0x69, 0x65, 0x6e, 0x74]
  | .peer => [0x2f, 0x70, 0x65, 0x65, 0x72]
  | .relay => [0x2f, 0x72, 0x65, 0x6c, 0x61, 0x79]

/-- What a message is: its type, the id if there is one, and where the rest begins. -/
structure Parsed where
  type : Nat
  id : Option Int
  offset : Nat
  deriving DecidableEq, Repr

/-! ## Binary messages -/

/-- `binmsg_check`; the other functions of `binmsg.hpp` are called if it succeeds. -/
def readCheck (msg : List UInt8) : Bounded Bool :=
  if msg.length ≥ 4 then do
    let b ← readAt msg 0
    return hasBit b.toNat kAooBinMsgDomainBit
  else return false

/-- `binmsg_type` -/
def readType (msg : List UInt8) : Bounded Nat := do
  let b ← readAt msg 0
  return b.toNat % 128

/-- `binmsg_headersize` -/
def readHeadersize (msg : List UInt8) : Bounded Nat := do
  let b ← readAt msg 1
  let n := if hasBit b.toNat kAooBinMsgSizeBit then 12 else 4
  return if msg.length ≥ n then n else 0

/-- `from_bytes<AooId>` -/
def readInt32 (msg : List UInt8) (i : Nat) : Bounded Int :=
  if i + 4 ≤ msg.length then .ok (int32Field (msg.drop i)) else .error .read

/-- `binmsg_to` -/
def readTo (msg : List UInt8) : Bounded Int := do
  let b ← readAt msg 1
  if hasBit b.toNat kAooBinMsgSizeBit then
    if msg.length ≥ 12 then readInt32 msg 4 else return kAooIdInvalid
  else
    let b ← readAt msg 2
    return b.toNat

/-- The checked reads of a binary message are those of `binmsg.hpp`. -/
theorem readCheck_eq (msg : List UInt8) : readCheck msg = .ok (binmsgCheck msg) := by
  unfold readCheck binmsgCheck
  by_cases h : msg.length ≥ 4
  · rw [if_pos h, readAt_eq (show 0 < msg.length by omega) 0, decide_eq_true h]
    rfl
  · rw [if_neg h, decide_eq_false h]
    rfl

theorem readType_eq {msg : List UInt8} (h : 4 ≤ msg.length) :
    readType msg = .ok (binmsgType msg) := by
  unfold readType binmsgType
  rw [readAt_eq (show 0 < msg.length by omega) 0]
  rfl

theorem readHeadersize_eq {msg : List UInt8} (h : 4 ≤ msg.length) :
    readHeadersize msg = .ok (binmsgHeadersize msg) := by
  unfold readHeadersize binmsgHeadersize
  rw [readAt_eq (show 1 < msg.length by omega) 0]
  rfl

theorem readTo_eq {msg : List UInt8} (h : 4 ≤ msg.length) : readTo msg = .ok (binmsgTo msg) := by
  unfold readTo binmsgTo readInt32
  rw [readAt_eq (show 1 < msg.length by omega) 0]
  change (if hasBit (msg.getD 1 0).toNat kAooBinMsgSizeBit = true then _ else _) = _
  split
  next =>
    split
    next h12 =>
      rw [if_pos (by omega)]
    next => rfl
  next =>
    rw [readAt_eq (show 2 < msg.length by omega) 0]
    rfl

/-! ## Address patterns -/

/-- The comparisons with the patterns of some types, one after the other; the type, and where its
pattern ends. -/
def matchPattern (msg : List UInt8) (count : Nat) :
    List AooMsgType → Bounded (Option (AooMsgType × Nat))
  | [] => return none
  | t :: ts => do
    if ← startsWith msg count t.pattern then return some (t, count + t.pattern.length)
    else matchPattern msg count ts

/-- The text at a pointer, up to its zero byte. -/
def cString (s : List UInt8) : Bounded (List UInt8) := do
  let n ← skip (· ≠ 0) s
  return s.take n

/-- `sscanf(text, "/%d%n", &id, &skip)`: the id and how many bytes it takes, if there is one. -/
abbrev Sscanf := List UInt8 → Option (Int × Nat)

/-! ## The two functions -/

/-- `aoo_parsePattern`, called with pointers for all results. -/
def aooParsePattern (sscanf : Sscanf) (msg : List UInt8) : Bounded (Except AooError Parsed) := do
  if ← readCheck msg then
    let type ← readType msg
    let id ← readTo msg
    let n ← readHeadersize msg
    if n > 0 then return .ok ⟨type, some id, n⟩ else return .error .badArgument
  else if ← startsWith msg 0 kAooMsgDomain then
    let count := kAooMsgDomain.length
    match ← matchPattern msg count [.source, .sink] with
    | some (type, count) =>
      match sscanf (← cString (msg.drop count)) with
      | some (id, skip) => return .ok ⟨type.toNat, some id, count + skip⟩
      | none =>
        -- the log shows the text
        let _ ← cString (msg.drop count)
        return .error .badArgument
    | none =>
      match ← matchPattern msg count [.client, .server, .peer, .relay] with
      | some (type, count) => return .ok ⟨type.toNat, none, count⟩
      | none => return .error .badArgument
  else return .error .badArgument

/-- `net::parse_pattern`. The header size is not looked at. -/
def parsePattern (msg : List UInt8) : Bounded (Except AooError Parsed) := do
  if ← readCheck msg then
    let type ← readType msg
    let offset ← readHeadersize msg
    return .ok ⟨type, none, offset⟩
  else if ← startsWith msg 0 kAooMsgDomain then
    match ← matchPattern msg kAooMsgDomain.length [.server, .client, .peer, .relay] with
    | some (type, count) => return .ok ⟨type.toNat, none, count⟩
    | none => return .error .badFormat
  else return .error .badFormat

/-- A text has to end inside the message. -/
theorem cString_ok_iff (s : List UInt8) : (∃ text, cString s = .ok text) ↔ 0 ∈ s := by
  have hskip : (∃ n, skip (fun b : UInt8 => decide (b ≠ 0)) s = .ok n) ↔ 0 ∈ s := by
    rw [skip_ok_iff]
    simp
  rw [← hskip]
  unfold cString
  constructor
  · rintro ⟨text, htext⟩
    cases hn : skip (fun b : UInt8 => decide (b ≠ 0)) s with
    | error e =>
      rw [hn] at htext
      cases htext
    | ok n => exact ⟨n, rfl⟩
  · rintro ⟨n, hn⟩
    rw [hn]
    exact ⟨_, rfl⟩

/-! ## What the functions return -/

variable {sscanf : Sscanf} {msg : List UInt8}

/-- The message continues with the pattern of a type. -/
def hasPattern (msg : List UInt8) (t : AooMsgType) : Bool := decide (t.pattern <+: msg.drop 4)

/-- The first of some types whose pattern is there. -/
def findPattern (msg : List UInt8) (ts : List AooMsgType) : Option AooMsgType :=
  ts.find? (hasPattern msg)

theorem startsWith_pattern (msg : List UInt8) (t : AooMsgType) :
    startsWith msg 4 t.pattern = .ok (hasPattern msg t) :=
  startsWith_eq msg 4 (by cases t <;> exact List.cons_ne_nil _ _)

theorem startsWith_domain (msg : List UInt8) :
    startsWith msg 0 kAooMsgDomain = .ok (decide (kAooMsgDomain <+: msg)) :=
  startsWith_eq msg 0 (show kAooMsgDomain ≠ [] from List.cons_ne_nil _ _)

theorem matchPattern_eq (msg : List UInt8) (ts : List AooMsgType) :
    matchPattern msg 4 ts = .ok ((findPattern msg ts).map fun t => (t, 4 + t.pattern.length)) := by
  induction ts with
  | nil => rfl
  | cons t ts ih =>
    rw [matchPattern, startsWith_pattern, findPattern, List.find?_cons]
    cases hasPattern msg t with
    | true => rfl
    | false => exact ih

/-- No pattern is the beginning of another. -/
theorem pattern_unique {t u : AooMsgType} {s : List UInt8} (ht : t.pattern <+: s)
    (hu : u.pattern <+: s) : t = u := by
  have hstarts : ∀ t u : AooMsgType, t.pattern <+: u.pattern → t = u := by
    intro t u
    cases t <;> cases u <;> decide
  rcases List.prefix_or_prefix_of_prefix ht hu with h | h
  · exact hstarts t u h
  · exact (hstarts u t h).symm

/-- The order of the comparisons does not matter. -/
theorem findPattern_eq_some {ts : List AooMsgType} {t : AooMsgType} :
    findPattern msg ts = some t ↔ t ∈ ts ∧ t.pattern <+: msg.drop 4 := by
  have hfound : ∀ u, findPattern msg ts = some u → u.pattern <+: msg.drop 4 := fun u hu =>
    of_decide_eq_true (List.find?_some (p := hasPattern msg) hu)
  constructor
  · intro h
    exact ⟨List.mem_of_find?_eq_some h, hfound t h⟩
  · rintro ⟨hmem, hstarts⟩
    cases hu : findPattern msg ts with
    | none => exact absurd (decide_eq_true hstarts) (List.find?_eq_none.mp hu t hmem)
    | some u => rw [pattern_unique hstarts (hfound u hu)]

theorem findPattern_perm {ts us : List AooMsgType} (h : ∀ t, t ∈ ts ↔ t ∈ us) :
    findPattern msg ts = findPattern msg us := by
  ext t
  rw [findPattern_eq_some, findPattern_eq_some, h]

/-- An address pattern is no binary message. -/
theorem binmsgCheck_of_domain (h : kAooMsgDomain <+: msg) : binmsgCheck msg = false := by
  obtain ⟨rest, rfl⟩ := h
  unfold binmsgCheck
  rw [Bool.and_eq_false_iff]
  refine .inr ?_
  change hasBit (0x2f : UInt8).toNat kAooBinMsgDomainBit = false
  decide

theorem not_binmsgCheck_of_domain (h : kAooMsgDomain <+: msg) : ¬ binmsgCheck msg = true := by
  rw [binmsgCheck_of_domain h]
  exact Bool.false_ne_true

theorem aooParsePattern_bin (h : binmsgCheck msg = true) :
    aooParsePattern sscanf msg = .ok (if binmsgHeadersize msg > 0 then
      .ok ⟨binmsgType msg, some (binmsgTo msg), binmsgHeadersize msg⟩
      else .error .badArgument) := by
  have hlength : 4 ≤ msg.length := of_decide_eq_true (Bool.and_eq_true_iff.mp h).1
  unfold aooParsePattern
  simp only [readCheck_eq, h, readType_eq hlength, readTo_eq hlength, readHeadersize_eq hlength,
    bind, Except.bind, if_true]
  split
  next => rfl
  next => rfl

theorem parsePattern_bin (h : binmsgCheck msg = true) :
    parsePattern msg = .ok (.ok ⟨binmsgType msg, none, binmsgHeadersize msg⟩) := by
  have hlength : 4 ≤ msg.length := of_decide_eq_true (Bool.and_eq_true_iff.mp h).1
  unfold parsePattern
  simp only [readCheck_eq, h, readType_eq hlength, readHeadersize_eq hlength, bind, Except.bind,
    if_true]
  rfl

/-- The text behind `/aoo` decides. -/
theorem aooParsePattern_osc (h : kAooMsgDomain <+: msg) :
    aooParsePattern sscanf msg = match findPattern msg [.source, .sink] with
      | some t => do
        match sscanf (← cString (msg.drop (4 + t.pattern.length))) with
        | some (id, skip) => return .ok ⟨t.toNat, some id, 4 + t.pattern.length + skip⟩
        | none =>
          let _ ← cString (msg.drop (4 + t.pattern.length))
          return .error .badArgument
      | none => .ok (match findPattern msg [.client, .server, .peer, .relay] with
        | some t => .ok ⟨t.toNat, none, 4 + t.pattern.length⟩
        | none => .error .badArgument) := by
  have hdomain : startsWith msg 0 kAooMsgDomain = .ok true := by
    rw [startsWith_domain, decide_eq_true h]
  unfold aooParsePattern
  simp only [readCheck_eq, binmsgCheck_of_domain h, hdomain, bind, Except.bind, if_true,
    show kAooMsgDomain.length = 4 from rfl, matchPattern_eq]
  cases findPattern msg [.source, .sink] with
  | some t => rfl
  | none =>
    cases findPattern msg [.client, .server, .peer, .relay] with
    | some t => rfl
    | none => rfl

theorem parsePattern_osc (h : kAooMsgDomain <+: msg) :
    parsePattern msg = .ok (match findPattern msg [.client, .server, .peer, .relay] with
      | some t => .ok ⟨t.toNat, none, 4 + t.pattern.length⟩
      | none => .error .badFormat) := by
  have hdomain : startsWith msg 0 kAooMsgDomain = .ok true := by
    rw [startsWith_domain, decide_eq_true h]
  have horder : findPattern msg [.server, .client, .peer, .relay] =
      findPattern msg [.client, .server, .peer, .relay] := by
    refine findPattern_perm fun t => ?_
    cases t <;> decide
  unfold parsePattern
  simp only [readCheck_eq, binmsgCheck_of_domain h, hdomain, bind, Except.bind, if_true,
    show kAooMsgDomain.length = 4 from rfl, matchPattern_eq, horder]
  cases findPattern msg [.client, .server, .peer, .relay] with
  | some t => rfl
  | none => rfl

/-- Anything else is refused. -/
theorem parse_other (hbin : binmsgCheck msg = false) (hosc : ¬ kAooMsgDomain <+: msg) :
    aooParsePattern sscanf msg = .ok (.error .badArgument) ∧
      parsePattern msg = .ok (.error .badFormat) := by
  have hdomain : startsWith msg 0 kAooMsgDomain = .ok false := by
    rw [startsWith_domain, decide_eq_false hosc]
  unfold aooParsePattern parsePattern
  simp only [readCheck_eq, hbin, hdomain, bind, Except.bind]
  exact ⟨rfl, rfl⟩

/-! ## Classification -/

/-- The types that the client and the server handle. -/
def netTypes : List AooMsgType := [.server, .client, .peer, .relay]

/-- A message for a server, client, peer or relay, binary or OSC. -/
def NetMessage (msg : List UInt8) : Prop :=
  (binmsgCheck msg = true ∧ ∃ t ∈ netTypes, binmsgType msg = t.toNat) ∨
    (kAooMsgDomain <+: msg ∧ ∃ t ∈ netTypes, hasPattern msg t = true)

/-- Both functions refuse, or they accept with one type and offset. -/
def SameVerdict : Except AooError Parsed → Except AooError Parsed → Prop
  | .ok x, .ok y => x.type = y.type ∧ x.offset = y.offset
  | .error _, .error _ => True
  | _, _ => False

/-- The offset is that of a complete header. -/
def Complete (msg : List UInt8) (result : Except AooError Parsed) : Prop :=
  ∀ r, result = .ok r → (r.offset = 4 ∨ r.offset = 12) ∧ r.offset ≤ msg.length

/-- Both functions look at bytes of the message only, they say the same about messages for
servers, clients, peers and relays, and binary messages that are accepted have a header. -/
def Classified (sscanf : Sscanf) (msg : List UInt8) : Prop :=
  ∃ a b, aooParsePattern sscanf msg = .ok a ∧ parsePattern msg = .ok b ∧
    (NetMessage msg → SameVerdict a b) ∧
    (binmsgCheck msg = true → Complete msg a ∧ Complete msg b)

/-- The messages for which all is well. -/
structure Regular (msg : List UInt8) : Prop where
  /-- A binary message with large ids has a large header. -/
  header : binmsgCheck msg = true → hasBit (msg.getD 1 0).toNat kAooBinMsgSizeBit = true →
    12 ≤ msg.length
  /-- The text behind a source or sink ends in the message. -/
  id : kAooMsgDomain <+: msg → ∀ t, t = .source ∨ t = .sink → hasPattern msg t = true →
    0 ∈ msg.drop (4 + t.pattern.length)

theorem binmsgHeadersize_cases (h : binmsgCheck msg = true) :
    (hasBit (msg.getD 1 0).toNat kAooBinMsgSizeBit = true ∧ msg.length < 12 ∧
        binmsgHeadersize msg = 0) ∨
      ((hasBit (msg.getD 1 0).toNat kAooBinMsgSizeBit = true → 12 ≤ msg.length) ∧
        (binmsgHeadersize msg = 4 ∨ binmsgHeadersize msg = 12) ∧
        binmsgHeadersize msg ≤ msg.length) := by
  have hlength : 4 ≤ msg.length := of_decide_eq_true (Bool.and_eq_true_iff.mp h).1
  unfold binmsgHeadersize
  cases hlarge : hasBit (msg.getD 1 0).toNat kAooBinMsgSizeBit with
  | true =>
    by_cases h12 : 12 ≤ msg.length
    · exact .inr ⟨fun _ => h12, by simp [h12], by simp [h12]⟩
    · exact .inl ⟨rfl, by omega, by simp [h12]⟩
  | false => exact .inr ⟨nofun, by simp [hlength], by simp [hlength]⟩

/-- A binary message. -/
theorem classified_bin_iff (h : binmsgCheck msg = true) :
    Classified sscanf msg ↔ Regular msg := by
  have hosc : ¬ kAooMsgDomain <+: msg := fun hdomain => not_binmsgCheck_of_domain hdomain h
  unfold Classified
  rw [aooParsePattern_bin h, parsePattern_bin h]
  rcases binmsgHeadersize_cases h with ⟨hlarge, hshort, hzero⟩ | ⟨hheader, hsize, hle⟩
  · -- The copy accepts, with the offset 0.
    refine iff_of_false ?_ fun hregular => absurd (hregular.header h hlarge) (by omega)
    rintro ⟨a, b, -, hb, -, hcomplete⟩
    cases hb
    have hoffset := ((hcomplete h).2 _ rfl).1
    dsimp only at hoffset
    omega
  · refine iff_of_true ?_ ⟨fun _ => hheader, fun hdomain => absurd hdomain hosc⟩
    have hpos : binmsgHeadersize msg > 0 := by omega
    rw [if_pos hpos]
    refine ⟨_, _, rfl, rfl, fun _ => ⟨rfl, rfl⟩, fun _ => ⟨fun r hr => ?_, fun r hr => ?_⟩⟩
    · cases hr
      exact ⟨hsize, hle⟩
    · cases hr
      exact ⟨hsize, hle⟩

/-- The address of a source or sink: whether the text behind it can be read. -/
theorem classified_endpoint_iff (h : kAooMsgDomain <+: msg) {t : AooMsgType}
    (hfound : findPattern msg [.source, .sink] = some t) :
    Classified sscanf msg ↔ Regular msg := by
  have hbin := not_binmsgCheck_of_domain h
  obtain ⟨hmem, hstarts⟩ := findPattern_eq_some.mp hfound
  have hendpoint : t = .source ∨ t = .sink := by
    simpa using hmem
  -- It is no message for a server, client, peer or relay.
  have hnet : ¬ NetMessage msg := by
    rintro (⟨htrue, -⟩ | ⟨-, u, hu, hpattern⟩)
    · exact hbin htrue
    · rw [← pattern_unique hstarts (of_decide_eq_true hpattern)] at hu
      rcases hendpoint with rfl | rfl
      · exact absurd hu (by decide)
      · exact absurd hu (by decide)
  have hregular : Regular msg ↔ 0 ∈ msg.drop (4 + t.pattern.length) := by
    refine ⟨fun hr => hr.id h t hendpoint (decide_eq_true hstarts), fun hid =>
      ⟨fun htrue => absurd htrue hbin, fun _ u _ hpattern => ?_⟩⟩
    rw [← pattern_unique hstarts (of_decide_eq_true hpattern)]
    exact hid
  rw [hregular, ← cString_ok_iff]
  unfold Classified
  rw [aooParsePattern_osc h, parsePattern_osc h, hfound]
  simp only
  generalize msg.drop (4 + t.pattern.length) = s
  cases htext : cString s with
  | error e =>
    refine iff_of_false ?_ ?_
    · rintro ⟨a, -, ha, -⟩
      cases ha
    · rintro ⟨text, hok⟩
      cases hok
  | ok text =>
    refine iff_of_true ?_ ⟨text, rfl⟩
    simp only [bind, Except.bind]
    cases sscanf text with
    | some r =>
      exact ⟨_, _, rfl, rfl, fun hn => absurd hn hnet, fun htrue => absurd htrue hbin⟩
    | none =>
      exact ⟨_, _, rfl, rfl, fun hn => absurd hn hnet, fun htrue => absurd htrue hbin⟩

/-- Any other address: both functions make the same comparisons. -/
theorem classified_address (h : kAooMsgDomain <+: msg)
    (hnone : findPattern msg [.source, .sink] = none) :
    Classified sscanf msg ∧ Regular msg := by
  have hbin := not_binmsgCheck_of_domain h
  refine ⟨?_, fun htrue => absurd htrue hbin, fun _ t ht hpattern => ?_⟩
  · unfold Classified
    rw [aooParsePattern_osc h, parsePattern_osc h, hnone]
    refine ⟨_, _, rfl, rfl, fun _ => ?_, fun htrue => absurd htrue hbin⟩
    cases findPattern msg [.client, .server, .peer, .relay] with
    | some t => exact ⟨rfl, rfl⟩
    | none => exact trivial
  · have hmem : t ∈ [AooMsgType.source, AooMsgType.sink] := by
      simpa using ht
    exact absurd hpattern (List.find?_eq_none.mp hnone t hmem)

/-- **When messages are classified as they should**, for every byte string and whatever `sscanf`
makes of a text. -/
theorem classified_iff : ∀ (sscanf : Sscanf) (msg : List UInt8),
    Classified sscanf msg ↔ Regular msg := by
  intro sscanf msg
  cases hbin : binmsgCheck msg with
  | true => exact classified_bin_iff hbin
  | false =>
    by_cases hosc : kAooMsgDomain <+: msg
    · cases hfound : findPattern msg [.source, .sink] with
      | some t => exact classified_endpoint_iff hosc hfound
      | none =>
        obtain ⟨hclassified, hregular⟩ := classified_address hosc hfound
        exact iff_of_true hclassified hregular
    · obtain ⟨ha, hb⟩ := parse_other hbin hosc
      have hnot : ¬ binmsgCheck msg = true := by
        rw [hbin]
        exact Bool.false_ne_true
      refine iff_of_true ⟨_, _, ha, hb, fun _ => trivial, fun htrue => absurd htrue hnot⟩ ?_
      exact ⟨fun htrue => absurd htrue hnot, fun hdomain => absurd hdomain hosc⟩

/-- A relay message with large ids that ends after eight bytes: `aoo_parsePattern` refuses it, and
`parse_pattern` accepts it with the offset 0. And `/aoo/src/1` without anything behind it: the
text is read on behind the end. -/
theorem cut_header_and_open_id :
    let cut : List UInt8 := [0x85, 0x80, 0, 0, 0, 0, 1, 0]
    let source : List UInt8 := [0x2f, 0x61, 0x6f, 0x6f, 0x2f, 0x73, 0x72, 0x63, 0x2f, 0x31]
    parsePattern cut = .ok (.ok ⟨5, none, 0⟩) ∧
      ∀ sscanf, aooParsePattern sscanf cut = .ok (.error .badArgument) ∧
        ¬ Classified sscanf cut ∧
        aooParsePattern sscanf source = .error .read ∧ ¬ Classified sscanf source := by
  intro cut source
  have hcut : parsePattern cut = .ok (.ok ⟨5, none, 0⟩) := by decide
  refine ⟨hcut, fun sscanf => ?_⟩
  have hsource : aooParsePattern sscanf source = .error .read := rfl
  refine ⟨rfl, ?_, hsource, ?_⟩
  · rintro ⟨a, b, -, hb, -, hcomplete⟩
    rw [hcut] at hb
    cases hb
    have hoffset := ((hcomplete (by decide)).2 _ rfl).1
    simp at hoffset
  · rintro ⟨a, -, ha, -⟩
    rw [hsource] at ha
    cases ha

end Aoo
