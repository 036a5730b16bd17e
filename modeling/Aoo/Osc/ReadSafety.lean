import Aoo.Lib.Avoids
import Aoo.Osc.Messages

/-!
# Which bytes are read

Here the bytes come from anywhere. A message without blobs is safe: neither `Init` nor a handler
reads behind its end, in whatever way the handler uses its iterator (`received_safe`). The
iterator never checks anything, but it only goes where `Init` has been.

There are two ways out. The size of a blob is not compared with the size of the message, since the
exceptions for it are made and not thrown: `blob_unchecked` is for any size. And with empty
type tags the iterator starts at the last byte of the message with a null pointer for the
arguments. If bytes follow the type tags, then the last one can pass for a type tag
(`noTypeTags_unchecked`).
-/

namespace Aoo.Osc

open Lib

variable {m bs rest more tags : List UInt8} {p q t n k end_ : Nat} {tag : UInt8}

/-- Nothing is read behind the end, and the result has a property. -/
abbrev Reads {α : Type} (P : α → Prop) (r : Except ReadFailure α) : Prop := Avoids .outOfBounds P r

/-- The exceptions are no reads. -/
theorem reads_malformed {α : Type} {P : α → Prop} (w : MessageFault) :
    Reads P (.error (.malformedMessage w)) :=
  .error fun h => by cases h

theorem reads_malformedPacket {α : Type} {P : α → Prop} (w : PacketFault) :
    Reads P (.error (.malformedPacket w)) :=
  .error fun h => by cases h

theorem reads_missing {α : Type} {P : α → Prop} : Reads P (.error .missingArgument) :=
  .error fun h => by cases h

theorem reads_wrong {α : Type} {P : α → Prop} : Reads P (.error .wrongArgumentType) :=
  .error fun h => by cases h

theorem reads_byteAt (h : p < m.length) : Reads (· ∈ m.drop p) (byteAt m p) := by
  rw [byteAt, List.drop_eq_getElem_cons h]
  exact .ok List.mem_cons_self

theorem reads_bytesAt (h : p + n ≤ m.length) : Reads (fun _ => True) (bytesAt m p n) := by
  rw [bytesAt, if_pos h]
  exact .ok trivial

/-- What `FindStr4End(p, end)` finds in a message, `FindStr4End(p)` finds as well. -/
theorem reads_str4LengthUpTo (hn : 0 < n) (hdvd : 4 ∣ n) (hle : n ≤ bs.length) :
    Reads (fun r => ∀ k, r = some k → 4 ∣ k ∧ k ≤ n ∧ str4Length bs = .ok k ∧ 0 ∈ bs)
      (str4LengthUpTo n bs) := by
  induction bs using four_induction generalizing n with
  | short bs hshort => omega
  | long a b c d bs ih =>
    rw [str4LengthUpTo]
    refine .ite (fun hd => .ok fun k hk => ?_) fun hd =>
      .ite (fun _ => .ok fun k hk => absurd hk.symm (Option.some_ne_none k)) fun hn4 => ?_
    · obtain rfl := Option.some.inj hk
      refine ⟨Nat.dvd_refl 4, by omega, ?_, by simp [hd]⟩
      rw [str4Length, if_pos hd]
    · -- there are four more bytes before the end, and the search goes on
      simp only [List.length_cons] at hle
      refine (ih (n := n - 4) (by omega) (by omega) (by omega)).bind
        fun r hspec => .ok fun k hk => ?_
      obtain ⟨k', rfl, rfl⟩ := Option.map_eq_some_iff.mp hk
      obtain ⟨hdvd', hle', hlength, hmem⟩ := hspec k' rfl
      refine ⟨by omega, by omega, ?_, by simp [hmem]⟩
      rw [str4Length, if_neg hd, hlength]
      rfl

/-- `FindStr4End(p, end)` stays in the message. -/
theorem reads_findStr4EndUpTo (hp : p < end_) (hdvd : 4 ∣ p) (hend : 4 ∣ end_)
    (hle : end_ ≤ m.length) :
    Reads (fun r => ∀ q, r = some q → 4 ∣ q ∧ q ≤ end_ ∧ findStr4End m p = .ok q ∧ 0 ∈ m.drop p)
      (findStr4EndUpTo m p end_) := by
  obtain ⟨b, hb⟩ : ∃ b, byteAt m p = .ok b := by
    rw [byteAt, List.drop_eq_getElem_cons (Nat.lt_of_lt_of_le hp hle)]
    exact ⟨_, rfl⟩
  have hlength : end_ - p ≤ (m.drop p).length := by
    rw [List.length_drop]
    omega
  have hmem : b ∈ m.drop p := (reads_byteAt (Nat.lt_of_lt_of_le hp hle)).of_ok b hb
  rw [findStr4EndUpTo, if_neg (Nat.not_le_of_lt hp), findStr4End, hb]
  refine .ite (fun hzero => .ok fun q hq => ?_) fun hzero => ?_
  · obtain rfl := Option.some.inj hq
    exact ⟨by omega, by omega, if_pos hzero, hzero ▸ hmem⟩
  · refine (reads_str4LengthUpTo (n := end_ - p) (by omega) (by omega) hlength).bind
      fun r hspec => .ok fun q hq => ?_
    obtain ⟨k, rfl, rfl⟩ := Option.map_eq_some_iff.mp hq
    obtain ⟨hdvd', hle', hk, hmem'⟩ := hspec k rfl
    refine ⟨by omega, by omega, ?_, hmem'⟩
    simp only [bind, Except.bind, if_neg hzero, hk]
    rfl

/-! ## Arguments -/

/-- Where the argument behind one at `p` begins, if there is one with this type tag. -/
def Next (m : List UInt8) (end_ : Nat) (tag : UInt8) (p q : Nat) : Prop :=
  match layout tag with
  | .empty | .arrayBegin | .arrayEnd => q = p
  | .fixed n => q = p + n ∧ q ≤ end_
  | .string => findStr4End m p = .ok q ∧ 0 ∈ m.drop p
  | .blob | .unknown => False

/-- The arguments for the type tags are there, from `p` on. -/
def Laid (m : List UInt8) (end_ : Nat) : List UInt8 → Nat → Prop
  | [], _ => True
  | tag :: tags, p => ∃ q, Next m end_ tag p q ∧ Laid m end_ tags q

/-- The fixed sizes are multiples of four. -/
theorem layout_fixed (h : layout tag = .fixed n) : 4 ∣ n := by
  unfold layout at h
  split_ifs at h
  · cases h
    exact Nat.dvd_refl 4
  · cases h
    exact ⟨2, rfl⟩

theorem layout_blob (h : layout tag = .blob) : tag = BLOB_TYPE_TAG := by
  unfold layout at h
  split_ifs at h with _ _ _ _ _ _ hblob
  exact hblob

/-- `Init` reads nothing outside of the message for an argument, and goes to the next one. -/
theorem reads_initArgument (hblob : tag ≠ BLOB_TYPE_TAG) (hp : p ≤ end_) (hdvd : 4 ∣ p)
    (hend : 4 ∣ end_) (hle : end_ ≤ m.length) (arrayLevel : BitVec 32) :
    Reads (fun r => Next m end_ tag p r.1 ∧ r.1 ≤ end_ ∧ 4 ∣ r.1)
      (ReceivedMessage.initArgument m end_ tag p arrayLevel) := by
  unfold ReceivedMessage.initArgument Next
  cases hlayout : layout tag with
  | empty | arrayBegin | arrayEnd => exact .ok ⟨rfl, hp, hdvd⟩
  | fixed n =>
    have hn := layout_fixed hlayout
    refine .ite (fun _ => reads_malformed _) fun _ => .ite (fun _ => reads_malformed _) fun hin => ?_
    exact .ok ⟨⟨rfl, by omega⟩, by omega, by omega⟩
  | string =>
    refine .ite (fun _ => reads_malformed _) fun hne => ?_
    refine (reads_findStr4EndUpTo (Nat.lt_of_le_of_ne hp hne) hdvd hend hle).bind fun r hspec => ?_
    cases r with
    | none => exact reads_malformed _
    | some q =>
      obtain ⟨hdvd', hle', hfind, hmem⟩ := hspec q rfl
      exact .ok ⟨⟨hfind, hmem⟩, hle', hdvd'⟩
  | blob => exact absurd (layout_blob hlayout) hblob
  | unknown => exact reads_malformed _

/-- The loop over the type tags. -/
theorem reads_initArguments (hne : tags ≠ []) (hzero : 0 ∉ tags) (hblob : BLOB_TYPE_TAG ∉ tags)
    (hp : p ≤ end_) (hdvd : 4 ∣ p) (hend : 4 ∣ end_) (hle : end_ ≤ m.length) {t : Nat}
    {arrayLevel : BitVec 32} :
    Reads (fun r => Laid m end_ tags p ∧ r.1 = t + tags.length)
      (ReceivedMessage.initArguments m end_ (tags ++ 0 :: more) t p arrayLevel) := by
  induction tags generalizing p t arrayLevel with
  | nil => exact absurd rfl hne
  | cons tag tags ih =>
    have hfirst := reads_initArgument (m := m) (fun h => hblob (h ▸ List.mem_cons_self)) hp hdvd hend
      hle arrayLevel
    cases tags with
    | nil =>
      -- the zero byte behind the last type tag stops the loop
      exact hfirst.bind fun r hr => .ok ⟨⟨r.1, hr.1, trivial⟩, rfl⟩
    | cons next tags =>
      refine hfirst.bind fun r hr => ?_
      obtain ⟨hnext, hin, hdvd'⟩ := hr
      have hne0 : next ≠ 0 := fun h => hzero (by simp [h])
      have hrest : Reads (fun r' => Laid m end_ (next :: tags) r.1 ∧
          r'.1 = t + 1 + (next :: tags).length)
          (ReceivedMessage.initArguments m end_ (next :: tags ++ 0 :: more) (t + 1) r.1 r.2) :=
        ih (List.cons_ne_nil next tags) (fun h => hzero (List.mem_cons_of_mem tag h))
          (fun h => hblob (List.mem_cons_of_mem tag h)) hin hdvd'
      refine .ite (fun h => absurd h hne0) fun _ => hrest.mono fun r' hr' => ?_
      refine ⟨⟨r.1, hnext, hr'.1⟩, hr'.2.trans ?_⟩
      rw [Nat.add_assoc, Nat.add_comm 1]
      rfl

/-! ## Handlers -/

/-- The iterator is at a type tag that `Init` has looked at, or behind the last one. -/
def Inside (m : List UInt8) (end_ : Nat) (it : ArgumentIterator) : Prop :=
  ∃ tags more, m.drop it.typeTagPtr = tags ++ 0 :: more ∧ 0 ∉ tags ∧
    (tags ≠ [] → ∃ p, it.argumentPtr = some p ∧ Laid m end_ tags p)

variable {it : ArgumentIterator} {c : Conversion} {msg : ReceivedMessage}

/-- The iterator goes where `Init` has been. -/
theorem reads_advance (h : Inside m end_ it) : Reads (Inside m end_) (it.advance m) := by
  obtain ⟨tags, more, htags, hzero, hlaid⟩ := h
  cases tags with
  | nil =>
    rw [ArgumentIterator.advance, byteAt_of_drop htags]
    exact .ok ⟨[], more, htags, hzero, hlaid⟩
  | cons tag tags =>
    obtain ⟨p, hpointer, q, hnext, hlaid'⟩ := hlaid (List.cons_ne_nil tag tags)
    have hpointer' : it.pointer = .ok p := by rw [ArgumentIterator.pointer, hpointer]
    have hbehind : Inside m end_ ⟨it.typeTagPtr + 1, some q⟩ :=
      ⟨tags, more, drop_succ htags, fun h => hzero (List.mem_cons_of_mem tag h),
        fun _ => ⟨q, rfl, hlaid'⟩⟩
    unfold Next at hnext
    rw [ArgumentIterator.advance, byteAt_of_drop htags]
    simp only [bind, Except.bind, pure, Except.pure]
    cases hlayout : layout tag with
    | empty | arrayBegin | arrayEnd =>
      simp only [hlayout] at hnext
      subst hnext
      rw [← hpointer] at hbehind
      exact .ok hbehind
    | fixed n =>
      simp only [hlayout] at hnext
      rw [hnext.1] at hbehind
      rw [hpointer']
      exact .ok hbehind
    | string =>
      simp only [hlayout] at hnext
      rw [hpointer']
      simp only [hnext.1]
      exact .ok hbehind
    | blob | unknown =>
      -- `Init` has not accepted these
      simp only [hlayout] at hnext

section Conversions

variable (htag : m.drop it.typeTagPtr = tag :: rest) (hpointer : it.argumentPtr = some p)
  (hnext : Next m end_ tag p q) (hle : end_ ≤ m.length)

include htag in
theorem reads_checkTypeTag (expected : UInt8) :
    Reads (fun _ => tag = expected) (it.checkTypeTag m expected) := by
  rw [ArgumentIterator.checkTypeTag, byteAt_of_drop htag]
  exact .ite (fun _ => reads_missing) fun _ => .ite (fun h => .ok h) fun _ => reads_wrong

include htag hpointer hnext hle

/-- `n` bytes at the argument pointer, when `Init` has been there for the type tag. -/
theorem reads_fixed {α : Type} {expected : UInt8} (f : List UInt8 → α)
    (hlayout : layout expected = .fixed n) :
    Reads (fun _ => True) (do
      it.checkTypeTag m expected
      let bs ← bytesAt m (← it.pointer) n
      return f bs) := by
  refine (reads_checkTypeTag htag expected).bind fun _ heq => ?_
  subst heq
  simp only [Next, hlayout] at hnext
  rw [ArgumentIterator.pointer, hpointer]
  exact (reads_bytesAt (by omega)).map fun _ _ => trivial

theorem reads_as32 {expected : UInt8} (hlayout : layout expected = .fixed 4) :
    Reads (fun _ => True) (it.as32 m expected) :=
  reads_fixed htag hpointer hnext hle _ hlayout

theorem reads_as64 {expected : UInt8} (hlayout : layout expected = .fixed 8) :
    Reads (fun _ => True) (it.as64 m expected) :=
  reads_fixed htag hpointer hnext hle _ hlayout

omit hle in
theorem reads_asStr4 {expected : UInt8} (hlayout : layout expected = .string) :
    Reads (fun p => 0 ∈ m.drop p) (it.asStr4 m expected) := by
  refine (reads_checkTypeTag htag expected).bind fun _ heq => ?_
  subst heq
  simp only [Next, hlayout] at hnext
  rw [ArgumentIterator.pointer, hpointer]
  exact .ok hnext.2

omit hpointer hle in
theorem reads_asBlob : Reads (fun _ => False) (it.asBlob m) := by
  refine (reads_checkTypeTag htag BLOB_TYPE_TAG).bind fun _ heq => ?_
  subst heq
  exact absurd hnext id

/-- No conversion reads anything outside of the message, also when its string is read. -/
theorem reads_conversion (c : Conversion) : Reads (fun _ => True) (it.read m c) := by
  cases c with
  | bool =>
    refine Avoids.map (P := fun _ => True) ?_ fun _ _ => trivial
    rw [ArgumentIterator.asBool, byteAt_of_drop htag]
    exact .ite (fun _ => reads_missing) fun _ => .ite (fun _ => .ok trivial) fun _ =>
      .ite (fun _ => .ok trivial) fun _ => reads_wrong
  | int32 | float | rgbaColor | midiMessage =>
    exact (reads_as32 htag hpointer hnext hle rfl).map fun _ _ => trivial
  | char =>
    refine Avoids.map (P := fun _ => True) ?_ fun _ _ => trivial
    exact (reads_as32 htag hpointer hnext hle rfl).map fun _ _ => trivial
  | int64 | timeTag | double =>
    exact (reads_as64 htag hpointer hnext hle rfl).map fun _ _ => trivial
  | string | symbol =>
    refine (reads_asStr4 htag hpointer hnext rfl).bind fun _ hzero => ?_
    rw [cString, if_pos hzero]
    exact .ok trivial
  | blob => exact (reads_asBlob htag hnext).bind fun _ h => absurd h id

end Conversions

theorem reads_read (h : Inside m end_ it) (hle : end_ ≤ m.length) :
    Reads (fun _ => True) (it.read m c) := by
  obtain ⟨tags, more, htags, hzero, hlaid⟩ := h
  cases tags with
  | nil =>
    rw [read_missing htags]
    exact reads_missing
  | cons tag tags =>
    obtain ⟨p, hpointer, q, hnext, -⟩ := hlaid (List.cons_ne_nil tag tags)
    exact reads_conversion htags hpointer hnext hle c

/-- **One access of a handler**. -/
theorem reads_access (h : Inside m end_ it) (hle : end_ ≤ m.length) (op : Access) :
    Reads (fun r => Inside m end_ r.2) (msg.access m it op) := by
  cases op with
  | next c =>
    exact (reads_advance h).bind fun it' h' => (reads_read h hle).map fun _ _ => h'
  | skip => exact (reads_advance h).map fun it' h' => h'
  | typeTag =>
    obtain ⟨tags, more, htags, -⟩ := id h
    have hin : it.typeTagPtr < m.length := by
      have hlength := congrArg List.length htags
      rw [List.length_drop, List.length_append, List.length_cons] at hlength
      omega
    exact (reads_byteAt hin).map fun _ _ => h
  | notAtEnd => exact .ok h

/-- A whole handler. -/
theorem reads_handle (h : Inside m end_ it) (hle : end_ ≤ m.length) (ops : List Access) :
    Reads (fun _ => True) (msg.handle m it ops) := by
  induction ops generalizing it with
  | nil => exact .ok trivial
  | cons op ops ih =>
    rw [ReceivedMessage.handle]
    exact (reads_access h hle op).bind fun r h' => (ih h').map fun _ _ => trivial

/-! ## Received messages -/

/-- The type tags of a message, up to their zero byte. -/
def typeTagsOf (m : List UInt8) : List UInt8 :=
  match findStr4EndUpTo m 0 m.length with
  | .ok (some typeTags) => (m.drop (typeTags + 1)).takeWhile (· ≠ 0)
  | _ => []

theorem takeWhile_split (h : 0 ∈ bs) : ∃ more, bs = bs.takeWhile (· ≠ 0) ++ 0 :: more := by
  induction bs with
  | nil => exact absurd h List.not_mem_nil
  | cons b bs ih =>
    by_cases hb : b = 0
    · subst hb
      exact ⟨bs, by rw [List.takeWhile_cons_of_neg (by simp)]; rfl⟩
    · obtain ⟨more, hmore⟩ := ih ((List.mem_cons.mp h).resolve_left (Ne.symm hb))
      refine ⟨more, ?_⟩
      rw [List.takeWhile_cons_of_pos (by simpa using hb), List.cons_append, ← hmore]

/-- Without type tags the iterator is at the last byte, which should be zero. -/
theorem inside_withoutArguments (hlast : m.getLast? = some 0) :
    Inside m m.length (ReceivedMessage.withoutArguments m.length).argumentsBegin := by
  obtain ⟨front, rfl⟩ := List.getLast?_eq_some_iff.mp hlast
  refine ⟨[], [], ?_, List.not_mem_nil, fun h => absurd rfl h⟩
  show (front ++ [0]).drop ((front ++ [0]).length - 1) = [0]
  rw [List.length_append, List.length_singleton, Nat.add_sub_cancel, List.drop_left]

theorem reads_initTypeTags (hend : 4 ∣ m.length) (hq : q ≤ m.length) (hdvd : 4 ∣ q)
    (htags : tags = (m.drop (q + 1)).takeWhile (· ≠ 0)) (hblob : BLOB_TYPE_TAG ∉ tags)
    (hlast : tags = [] → m.getLast? = some 0) :
    Reads (fun msg => Inside m m.length msg.argumentsBegin)
      (ReceivedMessage.initTypeTags m m.length q) := by
  unfold ReceivedMessage.initTypeTags
  refine .ite (fun hend => ?_) fun hne => ?_
  · -- only an address pattern
    subst hend
    rw [List.drop_of_length_le (Nat.le_succ _)] at htags
    exact .ok (inside_withoutArguments (hlast htags))
  · have hin : q < m.length := by omega
    have hcomma := List.drop_eq_getElem_cons hin
    have hfirst := List.drop_eq_getElem_cons (show q + 1 < m.length by omega)
    rw [byteAt_of_drop hcomma]
    refine .ite (fun _ => reads_malformed _) fun h44 => ?_
    rw [byteAt_of_drop hfirst]
    refine .ite (fun hzero => ?_) fun hzero => ?_
    · -- empty type tags
      rw [hfirst, List.takeWhile_cons_of_neg (by simpa using hzero)] at htags
      exact .ok (inside_withoutArguments (hlast htags))
    · refine (reads_findStr4EndUpTo hin hdvd hend (Nat.le_refl _)).bind fun r hspec => ?_
      cases r with
      | none => exact reads_malformed _
      | some arguments =>
        obtain ⟨hdvd', hle', -, hmem⟩ := hspec arguments rfl
        -- the zero byte that was found is not the comma
        have hmem' : 0 ∈ m.drop (q + 1) := by
          rw [hcomma] at hmem
          refine (List.mem_cons.mp hmem).resolve_left fun h0 => ?_
          rw [← h0] at h44
          exact h44 (by decide)
        obtain ⟨more, hmore⟩ := takeWhile_split hmem'
        have hne' : tags ≠ [] := by
          rw [htags, hfirst, List.takeWhile_cons_of_pos (by simpa using hzero)]
          exact List.cons_ne_nil _ _
        have hnot : 0 ∉ tags := htags ▸ takeWhile_noZero _
        rw [← htags] at hmore
        rw [hmore]
        refine (reads_initArguments hne' hnot hblob hle' hdvd' hend (Nat.le_refl _)).bind
          fun r hr => .ite (fun _ => reads_malformed _) fun _ => .ok ?_
        exact ⟨tags, more, hmore, hnot, fun _ => ⟨arguments, rfl, hr.1⟩⟩

theorem reads_create {data : List UInt8} (hlength : data.length ≤ 0x7FFFFFFF) :
    Reads (fun packet => packet = ⟨data, data.length⟩ ∧ data.length ≤ 0x7FFFFFFC ∧ 0 < data.length ∧
      4 ∣ data.length) (ReceivedPacket.create data) := by
  have hsize : signed (2 ^ 32) data.length = data.length := signed_of_lt (by omega)
  unfold ReceivedPacket.create
  dsimp only
  rw [hsize]
  refine .ite (fun _ => reads_malformedPacket _) fun hvalid =>
    .ite (fun _ => reads_malformedPacket _) fun hzero =>
    .ite (fun _ => reads_malformedPacket _) fun hmod => .ok ⟨rfl, ?_, by omega, by omega⟩
  have hle := (of_decide_eq_true (not_not.mp hvalid)).2
  exact_mod_cast hle

theorem reads_receive {data : List UInt8} (hlength : data.length ≤ 0x7FFFFFFF)
    (hblob : BLOB_TYPE_TAG ∉ typeTagsOf data)
    (hlast : typeTagsOf data = [] → data.getLast? = some 0) :
    Reads (fun msg => Inside data data.length msg.argumentsBegin) (ReceivedMessage.receive data) := by
  rw [ReceivedMessage.receive]
  refine Avoids.bind (reads_create hlength) fun packet hpacket => ?_
  obtain ⟨rfl, hle, hpos, hdvd⟩ := hpacket
  unfold typeTagsOf at hblob hlast
  have hfind := reads_findStr4EndUpTo hpos (Nat.dvd_zero 4) hdvd (Nat.le_refl data.length)
  unfold ReceivedMessage.init
  refine .ite (fun _ => reads_malformed _) fun _ => .ite (fun _ => reads_malformed _) fun _ =>
    .ite (fun _ => reads_malformed _) fun _ => ?_
  rw [Int.toNat_natCast]
  cases hr : findStr4EndUpTo data 0 data.length with
  | error e =>
    rw [hr] at hfind
    exact .error fun he => hfind.ne (congrArg Except.error he)
  | ok r =>
    rw [hr] at hfind hblob hlast
    cases r with
    | none => exact reads_malformed _
    | some q =>
      obtain ⟨hdvd', hle', -⟩ := hfind.of_ok _ rfl q rfl
      exact reads_initTypeTags hdvd hle' hdvd' rfl hblob hlast

/-- **A message without blobs is safe**: whatever the bytes are, and whatever the handler does, nothing
is read outside of the message. -/
theorem received_safe (data : List UInt8) (hlength : data.length ≤ 0x7FFFFFFF)
    (hblob : BLOB_TYPE_TAG ∉ typeTagsOf data)
    (hlast : typeTagsOf data = [] → data.getLast? = some 0) (ops : List Access) :
    (do
      let msg ← ReceivedMessage.receive data
      msg.handle data msg.argumentsBegin ops) ≠ .error .outOfBounds := by
  have hreads := reads_receive hlength hblob hlast
  refine Avoids.ne (P := fun _ => True) ?_
  refine Avoids.bind hreads fun msg h => ?_
  exact reads_handle h (Nat.le_refl _) ops

/-- `"/a" 7`, with more conversions than there are arguments. -/
theorem received_safe_int32 :
    (do
      let msg ← ReceivedMessage.receive [47, 97, 0, 0, 44, 105, 0, 0, 0, 0, 0, 7]
      msg.handle [47, 97, 0, 0, 44, 105, 0, 0, 0, 0, 0, 7] msg.argumentsBegin
        [.typeTag, .next .int32, .skip, .notAtEnd, .next .string]) ≠ .error .outOfBounds :=
  received_safe [47, 97, 0, 0, 44, 105, 0, 0, 0, 0, 0, 7] (by decide) (by decide) (by decide)
    [.typeTag, .next .int32, .skip, .notAtEnd, .next .string]

/-! ## The ways out -/

/-- **Empty type tags with bytes behind them**: `Init` accepts the message, and says that there are no
arguments. The last byte passes for a type tag all the same, and its conversion follows a null
pointer. -/
theorem noTypeTags_unchecked (address : CString) (contents : List UInt8) (last : UInt8)
    (hlength : (messageBytes address [] (contents ++ [last])).length ≤ 0x7FFFFFFC)
    (hdvd : 4 ∣ (contents ++ [last]).length) {c : Conversion} (hc : c.tag = last)
    (hbool : c ≠ .bool) :
    ∃ msg, ReceivedMessage.receive (messageBytes address [] (contents ++ [last])) = .ok msg ∧
      msg.argumentCount = 0 ∧
      ∀ ops, msg.handle (messageBytes address [] (contents ++ [last])) msg.argumentsBegin
        (.next c :: ops) = .error .outOfBounds := by
  refine ⟨_, receive_empty hlength hdvd rfl, Nat.sub_self _, fun ops => ?_⟩
  have hdrop : (messageBytes address [] (contents ++ [last])).drop
      ((messageBytes address [] (contents ++ [last])).length - 1) = [last] := by
    rw [messageBytes, ← List.append_assoc, List.length_append, List.length_singleton,
      Nat.add_sub_cancel, List.drop_left]
  -- the iterator moves before the argument is converted, and follows its null pointer
  have hadvance : (ReceivedMessage.withoutArguments
      (messageBytes address [] (contents ++ [last])).length).argumentsBegin.advance
        (messageBytes address [] (contents ++ [last])) = .error .outOfBounds := by
    rw [ArgumentIterator.advance]
    show (byteAt _ (_ - 1) >>= _) = _
    rw [byteAt_of_drop hdrop, ← hc]
    cases c with
    | bool => exact absurd rfl hbool
    | _ => rfl
  rw [ReceivedMessage.handle, ReceivedMessage.access, hadvance]
  rfl

/-- `"/a"` with empty type tags and four bytes behind them, the last one the type tag of a number. -/
theorem noTypeTags_unchecked_int32 :
    ∃ msg, ReceivedMessage.receive
        (messageBytes ⟨[47, 97], slashA_noZero⟩ [] ([1, 2, 3] ++ [INT32_TYPE_TAG])) = .ok msg ∧
      msg.argumentCount = 0 ∧
      ∀ ops, msg.handle (messageBytes ⟨[47, 97], slashA_noZero⟩ [] ([1, 2, 3] ++ [INT32_TYPE_TAG]))
        msg.argumentsBegin (.next .int32 :: ops) = .error .outOfBounds :=
  noTypeTags_unchecked ⟨[47, 97], slashA_noZero⟩ [1, 2, 3] INT32_TYPE_TAG (by decide) (by decide)
    rfl (by decide)

/-- Arguments that are skipped. -/
theorem handle_skip {t : Nat} {args : List Arg} {after : List UInt8}
    (htags : m.drop t = args.map Arg.tag ++ after) (h : m.drop p = args.flatMap Arg.bytes ++ rest)
    (hsize : ∀ a ∈ args, a.size ≤ 0x7FFFFFFC) (ops : List Access) :
    msg.handle m ⟨t, some p⟩ (List.replicate args.length .skip ++ ops) = do
      return List.replicate args.length .nothing ++
        (← msg.handle m ⟨t + args.length, some (p + (args.map Arg.size).sum)⟩ ops) := by
  induction args generalizing t p with
  | nil => exact (bind_pure _).symm
  | cons a args ih =>
    rw [List.flatMap_cons, List.append_assoc] at h
    have hnext := drop_past h
    rw [a.bytes_length] at hnext
    have hadvance : (ArgumentIterator.mk t (some p)).advance m = .ok ⟨t + 1, some (p + a.size)⟩ :=
      advance_arg a htags rfl h (hsize a List.mem_cons_self)
    have hrest := ih (drop_succ htags) hnext fun b hb => hsize b (List.mem_cons_of_mem a hb)
    rw [List.length_cons, List.replicate_succ, List.cons_append, ReceivedMessage.handle,
      ReceivedMessage.access, hadvance]
    simp only [bind, Except.bind, pure, Except.pure] at hrest ⊢
    rw [hrest, List.map_cons, List.sum_cons, Nat.add_assoc t, Nat.add_comm 1, ← Nat.add_assoc p]
    generalize msg.handle m _ ops = r
    cases r with
    | ok seen => rfl
    | error e => rfl

/-- What a handler gets for a blob with this size. -/
theorem handle_blob {t : Nat} {size : BitVec 32} {data after : List UInt8}
    (htag : m.drop t = BLOB_TYPE_TAG :: after) (h : m.drop p = fromUInt32 size ++ data)
    (hsize : size.toNat ≤ 0x7FFFFFFC) :
    msg.handle m ⟨t, some p⟩ [.next .blob] =
      if size.toNat ≤ data.length then .ok [.arg (.blob (data.take size.toNat))]
      else .error .outOfBounds := by
  have hint : size.toInt = size.toNat := BitVec.toInt_eq_toNat_of_lt (by omega)
  have hvalid : isValidElementSizeValue (size.toNat : Int) = true :=
    decide_eq_true ⟨Int.natCast_nonneg _, by exact_mod_cast hsize⟩
  have hdata := drop_past h
  rw [fromUInt32_length] at hdata
  have hlength := congrArg List.length h
  rw [List.length_drop, List.length_append, fromUInt32_length] at hlength
  have hadvance : (ArgumentIterator.mk t (some p)).advance m =
      .ok ⟨t + 1, some (p + 4 + (roundUp4 size).toNat)⟩ := by
    rw [ArgumentIterator.advance]
    show (byteAt m t >>= _) = _
    rw [byteAt_of_drop htag]
    show (toUInt32 m p >>= _) = _
    rw [toUInt32_of_drop h]
    rfl
  have hblob : (ArgumentIterator.mk t (some p)).asBlob m = .ok (p + 4, size.toNat) := by
    rw [ArgumentIterator.asBlob, ArgumentIterator.checkTypeTag]
    show ((byteAt m t >>= _) >>= _) = _
    rw [byteAt_of_drop htag]
    show (toUInt32 m p >>= _) = _
    rw [toUInt32_of_drop h]
    simp only [bind, Except.bind, hint]
    exact if_neg (not_not_intro hvalid)
  rw [ReceivedMessage.handle, ReceivedMessage.access, hadvance, ArgumentIterator.read, hblob]
  simp only [bind, Except.bind, bytesAt, hdata]
  by_cases hfits : size.toNat ≤ data.length
  · rw [if_pos hfits, if_pos (by omega)]
    rfl
  · rw [if_neg hfits, if_neg (by omega)]

/-- **The size of a blob is not checked**: the message is accepted for any size that an `int32` can
have, and a handler that reads the blob stays in the message only if the data is there. -/
theorem blob_unchecked (address : CString) (args : List Arg) (size : BitVec 32) (data : List UInt8)
    (hlength : (messageBytes address (args.map Arg.tag ++ [BLOB_TYPE_TAG])
      (args.flatMap Arg.bytes ++ (fromUInt32 size ++ data))).length ≤ 0x7FFFFFFC)
    (hdvd : 4 ∣ data.length) (hbalanced : Balanced args) (hsize : size.toNat ≤ 0x7FFFFFFC) :
    ∃ msg, ReceivedMessage.receive (messageBytes address (args.map Arg.tag ++ [BLOB_TYPE_TAG])
        (args.flatMap Arg.bytes ++ (fromUInt32 size ++ data))) = .ok msg ∧
      msg.argumentCount = args.length + 1 ∧
      msg.handle (messageBytes address (args.map Arg.tag ++ [BLOB_TYPE_TAG])
          (args.flatMap Arg.bytes ++ (fromUInt32 size ++ data))) msg.argumentsBegin
          (List.replicate args.length .skip ++ [.next .blob]) =
        if size.toNat ≤ data.length then
          .ok (List.replicate args.length .nothing ++ [.arg (.blob (data.take size.toNat))])
        else .error .outOfBounds := by
  have hzero : 0 ∉ args.map Arg.tag ++ [BLOB_TYPE_TAG] := by
    rw [List.mem_append, List.mem_singleton]
    exact fun h => h.elim (tags_noZero args) (by decide)
  have hcontents : (args.flatMap Arg.bytes ++ (fromUInt32 size ++ data)).length =
      (args.map Arg.size).sum + (4 + data.length) := by
    rw [List.length_append, flatMap_bytes_length, List.length_append, fromUInt32_length]
  have hsum := messageBytes_length address (args.map Arg.tag ++ [BLOB_TYPE_TAG])
    (args.flatMap Arg.bytes ++ (fromUInt32 size ++ data))
  rw [hcontents, ← address.padded_length, ← tagString_length] at hsum
  have hdvd' : 4 ∣ (args.flatMap Arg.bytes ++ (fromUInt32 size ++ data)).length := by
    have hargs := args_dvd args
    rw [flatMap_bytes_length] at hargs
    omega
  have hsizes : ∀ a ∈ args, a.size ≤ 0x7FFFFFFC := by
    intro a ha
    have := List.le_sum_of_mem (List.mem_map_of_mem (f := Arg.size) ha)
    omega
  obtain ⟨more, hbehind⟩ := drop_tags address (args.map Arg.tag ++ [BLOB_TYPE_TAG])
    (args.flatMap Arg.bytes ++ (fromUInt32 size ++ data))
  have harguments := drop_arguments address (args.map Arg.tag ++ [BLOB_TYPE_TAG])
    (args.flatMap Arg.bytes ++ (fromUInt32 size ++ data))
  have hblob := drop_past harguments
  rw [flatMap_bytes_length] at hblob
  have htags := hbehind
  rw [List.append_assoc, List.singleton_append] at htags
  -- `Init` gets to the blob, and steps over whatever size it has
  have hlast : ∀ end_ typeTag arrayLevel, ReceivedMessage.initArguments
      (messageBytes address (args.map Arg.tag ++ [BLOB_TYPE_TAG])
        (args.flatMap Arg.bytes ++ (fromUInt32 size ++ data))) end_ (BLOB_TYPE_TAG :: 0 :: more)
      typeTag (address.padded.length + (tagString (args.map Arg.tag ++ [BLOB_TYPE_TAG])).length +
        (args.map Arg.size).sum) arrayLevel = .ok (typeTag + 1, arrayLevel) := by
    intro end_ typeTag arrayLevel
    rw [ReceivedMessage.initArguments, ReceivedMessage.initArgument]
    show ((toUInt32 _ _ >>= _) >>= _) = _
    rw [toUInt32_of_drop hblob]
    rfl
  refine ⟨_, receive_tags hlength hdvd' (by simp) hzero hbehind ?_, Nat.add_sub_cancel_left .., ?_⟩
  · rw [List.append_assoc, List.singleton_append,
      initArguments_append (by decide) hsizes harguments (by omega), hlast,
      hbalanced.foldl_level, Nat.add_assoc]
  · have htag := drop_past htags
    rw [List.length_map] at htag
    show ReceivedMessage.handle _ _ ⟨_, some _⟩ _ = _
    rw [handle_skip htags harguments hsizes, handle_blob htag hblob hsize]
    split
    next => rfl
    next => rfl

/-- `"/a"` with a blob that has four bytes, but should have 1000. -/
theorem blob_unchecked_thousand :
    ∃ msg, ReceivedMessage.receive (messageBytes ⟨[47, 97], slashA_noZero⟩
        ([Arg.nil].map Arg.tag ++ [BLOB_TYPE_TAG])
        ([Arg.nil].flatMap Arg.bytes ++ (fromUInt32 1000 ++ [1, 2, 3, 4]))) = .ok msg ∧
      msg.argumentCount = 2 ∧
      msg.handle (messageBytes ⟨[47, 97], slashA_noZero⟩ ([Arg.nil].map Arg.tag ++ [BLOB_TYPE_TAG])
          ([Arg.nil].flatMap Arg.bytes ++ (fromUInt32 1000 ++ [1, 2, 3, 4]))) msg.argumentsBegin
          (List.replicate 1 .skip ++ [.next .blob]) =
        if (1000 : BitVec 32).toNat ≤ [(1 : UInt8), 2, 3, 4].length then
          .ok (List.replicate 1 .nothing ++ [.arg (.blob ([1, 2, 3, 4].take (1000 : BitVec 32).toNat))])
        else .error .outOfBounds :=
  blob_unchecked ⟨[47, 97], slashA_noZero⟩ [Arg.nil] 1000 [1, 2, 3, 4] (by decide) (by decide) rfl
    (by decide)

end Aoo.Osc
