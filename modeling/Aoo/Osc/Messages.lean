import Aoo.Osc.Reading
import Mathlib.Algebra.BigOperators.Ring.List
import Mathlib.Algebra.Order.BigOperators.Group.List
import Mathlib.Data.BitVec

/-!
# Messages are received as they have been written

`ReceivedMessage` accepts what `OutboundPacketStream` writes for a message, if the arrays are
balanced, and a handler then works on the list of arguments (`message_received`). It may convert
arguments, skip them, look at type tags and ask whether there are more, in any order: every
answer is the one that the list gives.
-/

namespace Aoo.Osc

open Lib

variable {m rest more : List UInt8} {p t : Nat} {args : List Arg}

/-! ## `Init` -/

/-- The loop gets over some arguments, whatever follows them. -/
theorem initArguments_append {end_ : Nat} {tag : UInt8} (htag : tag ≠ 0)
    (hsize : ∀ a ∈ args, a.size ≤ 0x7FFFFFFC) {arrayLevel : BitVec 32}
    (h : m.drop p = args.flatMap Arg.bytes ++ rest) (hend : p + (args.map Arg.size).sum ≤ end_) :
    ReceivedMessage.initArguments m end_ (args.map Arg.tag ++ tag :: more) t p arrayLevel =
      ReceivedMessage.initArguments m end_ (tag :: more) (t + args.length)
        (p + (args.map Arg.size).sum) (args.foldl Arg.level arrayLevel) := by
  induction args generalizing t p arrayLevel with
  | nil => rfl
  | cons a args ih =>
    rw [List.flatMap_cons, List.append_assoc] at h
    rw [List.map_cons, List.sum_cons] at hend
    have hin : p + a.size ≤ end_ := by omega
    have hfirst : ReceivedMessage.initArgument m end_ a.tag p arrayLevel =
        .ok (p + a.size, a.level arrayLevel) :=
      initArgument_arg a h hin (hsize a List.mem_cons_self)
    have hnext := drop_past h
    rw [a.bytes_length] at hnext
    have hrest := @ih (p + a.size) (t + 1) (fun c hc => hsize c (List.mem_cons_of_mem a hc))
      (a.level arrayLevel) hnext (by omega)
    -- the next type tag is not the zero byte at the end
    obtain ⟨next, tags, hnext, hne⟩ : ∃ next tags,
        args.map Arg.tag ++ tag :: more = next :: tags ∧ next ≠ 0 := by
      cases args with
      | nil => exact ⟨tag, more, rfl, htag⟩
      | cons b args => exact ⟨b.tag, _, rfl, b.tag_ne_zero⟩
    rw [List.map_cons, List.cons_append, hnext, ReceivedMessage.initArguments, hfirst]
    rw [hnext] at hrest
    refine (if_neg hne).trans (hrest.trans ?_)
    rw [List.map_cons, List.sum_cons, List.length_cons, Nat.add_assoc t, Nat.add_comm 1,
      Nat.add_assoc p]
    rfl

/-- The loop stops behind the last type tag. -/
theorem initArguments_args {end_ : Nat} (hne : args ≠ []) (hsize : ∀ a ∈ args, a.size ≤ 0x7FFFFFFC)
    {arrayLevel : BitVec 32} (h : m.drop p = args.flatMap Arg.bytes ++ rest)
    (hend : p + (args.map Arg.size).sum ≤ end_) :
    ReceivedMessage.initArguments m end_ (args.map Arg.tag ++ 0 :: more) t p arrayLevel =
      .ok (t + args.length, args.foldl Arg.level arrayLevel) := by
  obtain ⟨front, a, rfl⟩ := (List.eq_nil_or_concat args).resolve_left hne
  rw [List.concat_eq_append] at hsize h hend ⊢
  rw [List.flatMap_append, List.flatMap_singleton, List.append_assoc] at h
  rw [List.map_append, List.map_singleton, List.sum_append, List.sum_singleton] at hend
  have hlast := drop_past h
  rw [flatMap_bytes_length] at hlast
  have hfirst : ReceivedMessage.initArgument m end_ a.tag (p + (front.map Arg.size).sum)
      (front.foldl Arg.level arrayLevel) =
        .ok (p + (front.map Arg.size).sum + a.size, a.level (front.foldl Arg.level arrayLevel)) :=
    initArgument_arg a hlast (by omega) (hsize a (by simp))
  rw [List.map_append, List.map_singleton, List.append_assoc, List.singleton_append,
    initArguments_append a.tag_ne_zero (fun b hb => hsize b (List.mem_append_left _ hb)) h (by omega),
    ReceivedMessage.initArguments, hfirst, List.foldl_append, List.length_append, ← Nat.add_assoc]
  rfl

/-! ### Arrays -/

theorem Arg.level_eq (a : Arg) (arrayLevel : BitVec 32) :
    a.level arrayLevel + BitVec.ofNat 32 (if a.tag == ARRAY_END_TYPE_TAG then 1 else 0) =
      arrayLevel + BitVec.ofNat 32 (if a.tag == ARRAY_BEGIN_TYPE_TAG then 1 else 0) := by
  cases a with
  | arrayBegin => exact BitVec.add_zero _
  | arrayEnd => exact (BitVec.sub_add_cancel arrayLevel 1).trans (BitVec.add_zero _).symm
  | bool b => cases b <;> rfl
  | _ => rfl

/-- The array level is what the brackets leave, modulo 2^32. -/
theorem foldl_level (args : List Arg) (arrayLevel : BitVec 32) :
    args.foldl Arg.level arrayLevel +
        BitVec.ofNat 32 ((args.map Arg.tag).count ARRAY_END_TYPE_TAG) =
      arrayLevel + BitVec.ofNat 32 ((args.map Arg.tag).count ARRAY_BEGIN_TYPE_TAG) := by
  induction args generalizing arrayLevel with
  | nil => rfl
  | cons a args ih =>
    have hlevel := a.level_eq arrayLevel
    rw [List.foldl_cons, List.map_cons, List.count_cons, List.count_cons, BitVec.ofNat_add,
      BitVec.ofNat_add, ← BitVec.add_assoc, ih, BitVec.add_assoc, BitVec.add_comm (BitVec.ofNat 32 _),
      ← BitVec.add_assoc, hlevel, BitVec.add_assoc, BitVec.add_comm (BitVec.ofNat 32 _)]

/-- There are as many brackets of one kind as of the other, which is all that `Init` asks for. -/
def Balanced (args : List Arg) : Prop :=
  (args.map Arg.tag).count ARRAY_BEGIN_TYPE_TAG = (args.map Arg.tag).count ARRAY_END_TYPE_TAG

theorem Balanced.foldl_level (h : Balanced args) : args.foldl Arg.level 0 = 0 := by
  have hlevel := Osc.foldl_level args 0
  rw [show (args.map Arg.tag).count ARRAY_BEGIN_TYPE_TAG = _ from h] at hlevel
  exact (BitVec.add_left_inj _).mp hlevel

/-! ### The whole message -/

/-- The type tags with their comma are a string. -/
theorem tags_noZero (args : List Arg) : 0 ∉ args.map Arg.tag := by
  intro h
  obtain ⟨a, -, ha⟩ := List.mem_map.mp h
  exact a.tag_ne_zero ha

theorem args_dvd (args : List Arg) : 4 ∣ (args.flatMap Arg.bytes).length := by
  rw [flatMap_bytes_length]
  refine List.dvd_sum fun n hn => ?_
  obtain ⟨a, -, rfl⟩ := List.mem_map.mp hn
  exact a.size_dvd

theorem size_le_text {a : Arg} (address : CString) (ha : a ∈ args) :
    a.size ≤ (messageText address args).length := by
  have hsum := List.le_sum_of_mem (List.mem_map_of_mem (f := Arg.size) ha)
  rw [messageText_length]
  omega

/-- Behind the checks of the size, `Init` looks for the type tags. -/
theorem receive_eq {data : List UInt8} (hpos : 0 < data.length) (hlength : data.length ≤ 0x7FFFFFFC)
    (hdvd : 4 ∣ data.length) {typeTags : Nat}
    (hfind : findStr4EndUpTo data 0 data.length = .ok (some typeTags)) :
    ReceivedMessage.receive data = ReceivedMessage.initTypeTags data data.length typeTags := by
  have hsize : signed (2 ^ 32) data.length = data.length := signed_of_lt (by omega)
  have hvalid : isValidElementSizeValue (data.length : Int) = true :=
    decide_eq_true ⟨Int.natCast_nonneg _, by exact_mod_cast hlength⟩
  have hzero : (data.length : Int) ≠ 0 := by omega
  have hmod : ¬ ((data.length : Int) % 4 ≠ 0) := by omega
  have hcreate : ReceivedPacket.create data = .ok ⟨data, data.length⟩ := by
    unfold ReceivedPacket.create
    dsimp only
    rw [hsize, if_neg (not_not_intro hvalid), if_neg hzero, if_neg hmod]
  rw [ReceivedMessage.receive, hcreate]
  show ReceivedMessage.init data data.length = _
  rw [ReceivedMessage.init, if_neg (not_not_intro hvalid), if_neg hzero, if_neg hmod,
    Int.toNat_natCast, hfind]
  rfl

theorem tagString_eq (tags : List UInt8) :
    ∃ zeros, tagString tags = 44 :: (tags ++ 0 :: zeros) :=
  ⟨List.replicate (pad4 (44 :: tags ++ [0]).length - (44 :: tags ++ [0]).length) 0, by
    rw [tagString, zeroPad, List.append_assoc]
    rfl⟩

section Whole

variable {address : CString} {tags contents : List UInt8}

/-- Behind the address pattern are the type tags. -/
theorem drop_address : (messageBytes address tags contents).drop address.padded.length =
    tagString tags ++ contents := by
  rw [messageBytes, List.append_assoc, List.drop_left]

/-- There are type tags, if only none. -/
theorem address_ne_end : address.padded.length ≠ (messageBytes address tags contents).length := by
  have := le_pad4 (tags.length + 2)
  rw [messageBytes_length, address.padded_length]
  omega

variable (hlength : (messageBytes address tags contents).length ≤ 0x7FFFFFFC)
  (hdvd : 4 ∣ contents.length)

include hlength hdvd

theorem receive_bytes : ReceivedMessage.receive (messageBytes address tags contents) =
    ReceivedMessage.initTypeTags (messageBytes address tags contents)
      (messageBytes address tags contents).length address.padded.length := by
  have hfind : findStr4EndUpTo (messageBytes address tags contents) 0
      (messageBytes address tags contents).length = .ok (some (0 + address.padded.length)) := by
    apply findStr4EndUpTo_padded address
    · rw [List.drop_zero, messageBytes, List.append_assoc]
    · rw [Nat.zero_add, messageBytes_length, address.padded_length, Nat.add_assoc]
      exact Nat.le_add_right _ _
  have hpad := pad4_dvd (address.bytes.length + 1)
  have hpad' := pad4_dvd (tags.length + 2)
  have hpos := le_pad4 (address.bytes.length + 1)
  rw [Nat.zero_add] at hfind
  refine receive_eq ?_ hlength ?_ hfind
  · rw [messageBytes_length]
    omega
  · rw [messageBytes_length]
    omega

/-- `ReceivedMessage` of a message whose type tags are empty. Nobody looks at what follows. -/
theorem receive_empty (htags : tags = []) :
    ReceivedMessage.receive (messageBytes address tags contents) =
      .ok (.withoutArguments (messageBytes address tags contents).length) := by
  subst htags
  have htags : (messageBytes address [] contents).drop address.padded.length =
      44 :: 0 :: 0 :: 0 :: contents := drop_address
  have hfirst := drop_succ htags
  rw [receive_bytes hlength hdvd, ReceivedMessage.initTypeTags, if_neg address_ne_end,
    byteAt_of_drop htags, byteAt_of_drop hfirst]
  rfl

/-- `ReceivedMessage` of a message with type tags that `Init` gets over. -/
theorem receive_tags (hne : tags ≠ []) (hzero : 0 ∉ tags) {more : List UInt8}
    (hbehind : (messageBytes address tags contents).drop (address.padded.length + 1) =
      tags ++ 0 :: more) {typeTagsEnd : Nat}
    (hwalk : ReceivedMessage.initArguments (messageBytes address tags contents)
      (messageBytes address tags contents).length (tags ++ 0 :: more) (address.padded.length + 1)
      (address.padded.length + (tagString tags).length) 0 = .ok (typeTagsEnd, 0)) :
    ReceivedMessage.receive (messageBytes address tags contents) = .ok {
      typeTagsBegin := address.padded.length + 1
      typeTagsEnd := typeTagsEnd
      arguments := some (address.padded.length + (tagString tags).length) } := by
  have htags : (messageBytes address tags contents).drop address.padded.length =
      tagString tags ++ contents := drop_address
  have hcomma : 0 ∉ 44 :: tags := fun h => (List.mem_cons.mp h).elim (by decide) hzero
  -- the type tags with their comma are one string
  have hfind : findStr4EndUpTo (messageBytes address tags contents) address.padded.length
      (messageBytes address tags contents).length =
        .ok (some (address.padded.length + (tagString tags).length)) := by
    refine findStr4EndUpTo_padded ⟨44 :: tags, hcomma⟩ htags ?_
    show address.padded.length + (tagString tags).length ≤ _
    rw [messageBytes_length, address.padded_length, tagString_length]
    exact Nat.le_add_right _ _
  obtain ⟨zeros, hzeros⟩ := tagString_eq tags
  rw [hzeros] at htags
  obtain ⟨tag, tags, rfl⟩ := List.exists_cons_of_ne_nil hne
  have htag : tag ≠ 0 := fun h => hzero (h ▸ List.mem_cons_self)
  rw [receive_bytes hlength hdvd, ReceivedMessage.initTypeTags, if_neg address_ne_end,
    byteAt_of_drop htags, byteAt_of_drop hbehind]
  simp only [bind, Except.bind, if_neg htag, hfind, hbehind, hwalk]
  rfl

omit hlength hdvd in
variable (address tags contents) in
theorem drop_tags : ∃ more, (messageBytes address tags contents).drop (address.padded.length + 1) =
    tags ++ 0 :: more := by
  obtain ⟨zeros, hzeros⟩ := tagString_eq tags
  have htags : (messageBytes address tags contents).drop address.padded.length =
      tagString tags ++ contents := drop_address
  rw [hzeros, List.cons_append, List.append_assoc, List.cons_append] at htags
  exact ⟨_, drop_succ htags⟩

omit hlength hdvd in
variable (address tags contents) in
theorem drop_arguments : (messageBytes address tags contents).drop
    (address.padded.length + (tagString tags).length) = contents :=
  drop_past drop_address

end Whole

/-- `ReceivedMessage` of a message with arguments. -/
theorem receive_args {address : CString} (hlength : (messageText address args).length ≤ 0x7FFFFFFC)
    (hne : args ≠ []) (hbalanced : Balanced args) :
    ReceivedMessage.receive (messageText address args) = .ok {
      typeTagsBegin := address.padded.length + 1
      typeTagsEnd := address.padded.length + 1 + args.length
      arguments := some (address.padded.length + (tagString (args.map Arg.tag)).length) } := by
  have htext : (messageText address args).length =
      address.padded.length + (tagString (args.map Arg.tag)).length + (args.map Arg.size).sum := by
    rw [messageText_length, address.padded_length, tagString_length, List.length_map]
  have hsizes : ∀ a ∈ args, a.size ≤ 0x7FFFFFFC := fun a ha =>
    (size_le_text address ha).trans hlength
  have harguments : (messageText address args).drop (address.padded.length +
      (tagString (args.map Arg.tag)).length) = args.flatMap Arg.bytes ++ [] :=
    (drop_arguments ..).trans (List.append_nil _).symm
  obtain ⟨more, hbehind⟩ := drop_tags address (args.map Arg.tag) (args.flatMap Arg.bytes)
  refine receive_tags hlength (args_dvd args) (by simpa using hne) (tags_noZero args) hbehind ?_
  refine (initArguments_args hne hsizes harguments htext.ge).trans ?_
  rw [hbalanced.foldl_level]

/-! ## Handlers -/

/-- What a handler should see when these arguments are still to come. -/
def Access.answer (args : List Arg) : Access → Except ReadFailure (Seen × List Arg)
  | .next c =>
    match args with
    | [] => .error .missingArgument
    | a :: as => if a.conversion = some c then .ok (.arg a, as) else .error .wrongArgumentType
  | .skip => .ok (.nothing, args.tail)
  | .typeTag => .ok (.tag ((args.map Arg.tag).headD 0), args)
  | .notAtEnd => .ok (.more (args ≠ []), args)

/-- A handler that works on a list of arguments. -/
def handleArgs : List Arg → List Access → Except ReadFailure (List Seen)
  | _, [] => .ok []
  | args, op :: ops => do
    let r ← op.answer args
    return r.1 :: (← handleArgs r.2 ops)

/-- The iterator has these arguments in front of it. -/
structure At (m : List UInt8) (msg : ReceivedMessage) (it : ArgumentIterator) (args : List Arg) :
    Prop where
  tags : ∃ more, m.drop it.typeTagPtr = args.map Arg.tag ++ 0 :: more
  typeTagsEnd : it.typeTagPtr + args.length = msg.typeTagsEnd
  sizes : ∀ a ∈ args, a.size ≤ 0x7FFFFFFC
  arguments : args ≠ [] → ∃ p rest, it.argumentPtr = some p ∧
    m.drop p = args.flatMap Arg.bytes ++ rest

namespace At

variable {msg : ReceivedMessage} {it : ArgumentIterator}

/-- At the end the iterator stays where it is. -/
theorem advance_nil (h : At m msg it []) : it.advance m = .ok it := by
  obtain ⟨more, htags⟩ := h.tags
  rw [ArgumentIterator.advance, byteAt_of_drop htags]
  rfl

theorem advance_cons {a : Arg} (h : At m msg it (a :: args)) :
    ∃ it', it.advance m = .ok it' ∧ At m msg it' args := by
  obtain ⟨more, htags⟩ := h.tags
  obtain ⟨p, rest, hpointer, hargs⟩ := h.arguments (List.cons_ne_nil a args)
  rw [List.flatMap_cons, List.append_assoc] at hargs
  have hnext := drop_past hargs
  rw [a.bytes_length] at hnext
  refine ⟨_, advance_arg a htags hpointer hargs (h.sizes a List.mem_cons_self), ?_⟩
  exact {
    tags := ⟨more, drop_succ htags⟩
    typeTagsEnd := by
      rw [← h.typeTagsEnd, List.length_cons]
      dsimp only
      omega
    sizes := fun b hb => h.sizes b (List.mem_cons_of_mem a hb)
    arguments := fun _ => ⟨_, rest, rfl, hnext⟩ }

/-- One access does to the iterator what it does to the list. -/
theorem access (h : At m msg it args) (op : Access) :
    (∃ e, op.answer args = .error e ∧ msg.access m it op = .error e) ∨
    ∃ seen args' it', op.answer args = .ok (seen, args') ∧
      msg.access m it op = .ok (seen, it') ∧ At m msg it' args' := by
  obtain ⟨more, htags⟩ := h.tags
  cases op with
  | next c =>
    cases args with
    | nil =>
      refine .inl ⟨_, rfl, ?_⟩
      rw [ReceivedMessage.access, h.advance_nil, read_missing htags]
      rfl
    | cons a args =>
      obtain ⟨it', hadvance, hit'⟩ := h.advance_cons
      obtain ⟨p, rest, hpointer, hargs⟩ := h.arguments (List.cons_ne_nil a args)
      rw [List.flatMap_cons, List.append_assoc] at hargs
      by_cases hc : a.conversion = some c
      · refine .inr ⟨_, _, it', if_pos hc, ?_, hit'⟩
        rw [ReceivedMessage.access, hadvance,
          read_arg htags hpointer hargs (h.sizes a List.mem_cons_self) hc]
        rfl
      · refine .inl ⟨_, if_neg hc, ?_⟩
        rw [ReceivedMessage.access, hadvance, read_wrong htags hc]
        rfl
  | skip =>
    cases args with
    | nil =>
      refine .inr ⟨_, _, it, rfl, ?_, h⟩
      rw [ReceivedMessage.access, h.advance_nil]
      rfl
    | cons a args =>
      obtain ⟨it', hadvance, hit'⟩ := h.advance_cons
      refine .inr ⟨_, _, it', rfl, ?_, hit'⟩
      rw [ReceivedMessage.access, hadvance]
      rfl
  | typeTag =>
    refine .inr ⟨_, _, it, rfl, ?_, h⟩
    cases args with
    | nil =>
      rw [ReceivedMessage.access, byteAt_of_drop htags]
      rfl
    | cons a args =>
      rw [ReceivedMessage.access, byteAt_of_drop htags]
      rfl
  | notAtEnd =>
    refine .inr ⟨_, _, it, rfl, ?_, h⟩
    have hend : it.typeTagPtr ≠ msg.typeTagsEnd ↔ args ≠ [] := by
      rw [← h.typeTagsEnd, ← List.length_pos_iff]
      omega
    exact congrArg (fun b => Except.ok (Seen.more b, it)) (decide_eq_decide.mpr hend)

/-- A whole handler. -/
theorem handle (h : At m msg it args) (ops : List Access) :
    msg.handle m it ops = handleArgs args ops := by
  induction ops generalizing it args with
  | nil => rfl
  | cons op ops ih =>
    rw [ReceivedMessage.handle, handleArgs]
    rcases h.access op with ⟨e, hanswer, haccess⟩ | ⟨seen, args', it', hanswer, haccess, h'⟩
    · rw [hanswer, haccess]
      rfl
    · rw [hanswer, haccess]
      simp only [bind, Except.bind, ih h']

end At

/-- A message without arguments ends with the zero bytes of its type tags. -/
theorem At.begin_nil (address : CString) :
    At (messageText address []) (.withoutArguments (messageText address []).length)
      (ReceivedMessage.argumentsBegin (.withoutArguments (messageText address []).length)) [] := by
  have htext : (messageText address []).length = address.padded.length + 3 + 1 := by
    rw [messageText_length, address.padded_length]
    rfl
  have htags : (messageText address []).drop address.padded.length = [44, 0, 0, 0] := drop_address
  refine ⟨⟨[], ?_⟩, rfl, fun a ha => absurd ha List.not_mem_nil, fun hne => absurd rfl hne⟩
  show (messageText address []).drop ((messageText address []).length - 1) = [0]
  rw [htext]
  exact drop_succ (drop_succ (drop_succ htags))

/-- **A handler of a received message works on the arguments that have been written**, in whatever
way it goes over them. -/
theorem message_received (address : CString) (args : List Arg)
    (hlength : (messageText address args).length ≤ 0x7FFFFFFC) (hbalanced : Balanced args) :
    ∃ msg, ReceivedMessage.receive (messageText address args) = .ok msg ∧
      msg.argumentCount = args.length ∧ cString (messageText address args) 0 = .ok address ∧
      ∀ ops, msg.handle (messageText address args) msg.argumentsBegin ops = handleArgs args ops := by
  have haddress : cString (messageText address args) 0 = .ok address := by
    apply cString_padded
    rw [List.drop_zero, messageText, messageBytes, List.append_assoc]
  by_cases hargs : args = []
  · subst hargs
    exact ⟨_, receive_empty hlength (args_dvd []) rfl, Nat.sub_self _, haddress,
      (At.begin_nil address).handle⟩
  · obtain ⟨more, hbehind⟩ := drop_tags address (args.map Arg.tag) (args.flatMap Arg.bytes)
    refine ⟨_, receive_args hlength hargs hbalanced, Nat.add_sub_cancel_left .., haddress,
      At.handle ?_⟩
    exact {
      tags := ⟨more, hbehind⟩
      typeTagsEnd := rfl
      sizes := fun a ha => (size_le_text address ha).trans hlength
      arguments := fun _ => ⟨_, [], rfl, (drop_arguments ..).trans (List.append_nil _).symm⟩ }

/-- `"/a" 7` and a blob of three bytes. -/
theorem message_received_blob :
    ∃ msg, ReceivedMessage.receive
        (messageText ⟨[47, 97], slashA_noZero⟩ [.int32 7, .blob [1, 2, 3]]) = .ok msg ∧
      msg.argumentCount = 2 ∧
      cString (messageText ⟨[47, 97], slashA_noZero⟩ [.int32 7, .blob [1, 2, 3]]) 0 =
        .ok ⟨[47, 97], slashA_noZero⟩ ∧
      ∀ ops, msg.handle (messageText ⟨[47, 97], slashA_noZero⟩ [.int32 7, .blob [1, 2, 3]])
        msg.argumentsBegin ops = handleArgs [.int32 7, .blob [1, 2, 3]] ops :=
  message_received ⟨[47, 97], slashA_noZero⟩ [.int32 7, .blob [1, 2, 3]] (by decide) rfl

end Aoo.Osc
