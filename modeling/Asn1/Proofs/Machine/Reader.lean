import Asn1.Machine.Reader
import Asn1.Proofs.Machine.Word
import Asn1.Proofs.Offset
import Asn1.Tlv.Reader

/-!
Reading does not fault. Whatever the octets are, a cursor in a buffer that ends before the last
word reads what a reader does, and moves only past what it has read.
-/

namespace Asn1.Machine

theorem located_eq {base : Nat} {error : Error}
    (h : ∀ offset ∈ error.rootCause.offset?, offset + base < wordLimit) :
    located base error = some (error.rebase base) := by
  induction error with
  | malformed offset | unexpectedTag offset | unknownAlternative offset | trailing offset =>
    simp only [located, add_of_lt (h offset rfl), Error.rebase, Option.map_some]
  | inField index name source ih => simp only [located, ih h, Error.rebase, Option.map_some]
  | missingField | unencodable | noSuchField | typeMismatch | endlessType | violated => rfl

section Headers

theorem tagNumber_eq {octets : Octets} {number count : Nat} (hnumber : number ≤ Tag.numberLimit)
    (hword : count + 1 + octets.length < wordLimit) :
    tagNumber number (count + 1) octets =
      settled (((Base128.decodeFrom Tag.numberLimit number count octets).mapError
        (Tag.groupError 1)).map fun (number, rest) =>
          (number, count + 1 + (octets.length - rest.length))) := by
  induction octets generalizing number count with
  | nil =>
    simp [tagNumber, Base128.decodeFrom, Except.mapError, Except.map, Tag.groupError,
      Nat.add_comm]
  | cons octet rest ih =>
    rw [List.length_cons] at hword
    simp only [tagNumber, Base128.decodeFrom, Nat.add_eq_right]
    split
    · rename_i hzero
      simp [hzero, Except.mapError, Except.map, Tag.groupError]
    · split
      · simp [Except.mapError, Except.map, Tag.groupError, Nat.add_comm]
      · rename_i hfits
        have hlimit := Tag.numberLimit_eq
        have hsize : UInt32.size = 4294967296 := rfl
        rw [push_of_lt (by omega), add_of_lt (by omega)]
        simp only [lift_some, settled_ok_bind]
        split
        · rename_i hlast
          have hoctet : octet.toNat < 128 := by simpa [UInt8.lt_iff_toNat_lt] using hlast
          simp [Except.mapError, Except.map, Nat.mod_eq_of_lt hoctet]
        · rw [ih (by omega) (by omega)]
          cases hrest : Base128.decodeFrom Tag.numberLimit (number * 128 + octet.toNat % 128)
            (count + 1) rest with
          | error => rfl
          | ok read =>
            have hshort := Base128.decodeFrom_shortens hrest
            simp only [Except.mapError, Except.map, List.length_cons]
            congr 3
            omega

theorem tag_eq {octets : Octets} (hword : octets.length < wordLimit) :
    tag octets = settled ((Tag.decode 0 octets).map fun (tag, rest) =>
      (tag, octets.length - rest.length)) := by
  cases octets with
  | nil => rfl
  | cons first rest =>
    rw [List.length_cons] at hword
    simp only [tag, Tag.decode]
    split
    · simp [Except.map]
    · rw [tagNumber_eq (Nat.zero_le _) (by omega), Base128.decode]
      cases hnumber : Base128.decodeFrom Tag.numberLimit 0 0 rest with
      | error => rfl
      | ok read =>
        have hshort := Base128.decodeFrom_shortens hnumber
        simp only [Except.mapError, Except.map, settled_ok_bind]
        split
        · rfl
        · simp only [pure_eq_settled, List.length_cons]
          congr 3
          omega

/-- Numbers only grow when more octets are put behind. -/
theorem le_foldl (octets : Octets) (value : Nat) :
    value ≤ octets.foldl (fun value octet => value * 256 + octet.toNat) value := by
  induction octets generalizing value with
  | nil => exact Nat.le_refl _
  | cons octet rest ih =>
    have := ih (value * 256 + octet.toNat)
    rw [List.foldl_cons]
    omega

theorem foldlM_push {size value : Nat} {octets : Octets}
    (h : octets.foldl (fun value octet => value * 256 + octet.toNat) value < size) :
    octets.foldlM (fun value octet => push size 256 value octet.toNat) value =
      some (octets.foldl (fun value octet => value * 256 + octet.toNat) value) := by
  induction octets generalizing value with
  | nil => rfl
  | cons octet rest ih =>
    have hstep := le_foldl rest (value * 256 + octet.toNat)
    rw [List.foldl_cons] at h
    rw [List.foldlM_cons, push_of_lt (by omega), List.foldl_cons]
    exact ih h

theorem number_eq {octets : Octets} (h : octets.length ≤ 8) :
    number octets = some (Octets.toNat octets) := by
  refine foldlM_push ?_
  calc
    Octets.toNat octets < 256 ^ octets.length := Octets.toNat_lt octets
    _ ≤ 256 ^ 8 := Nat.pow_le_pow_right (by omega) h
    _ = UInt64.size := by norm_num [UInt64.size]

theorem length_eq {octets : Octets} (hword : octets.length < wordLimit) :
    length octets = settled ((Length.decode 0 octets).map fun (length, rest) =>
      (length, octets.length - rest.length)) := by
  cases octets with
  | nil => rfl
  | cons first rest =>
    rw [List.length_cons] at hword
    simp only [length, Length.decode]
    have hfirst := first.toNat_lt
    by_cases hshort : first.toNat < 128
    · simp [hshort, Except.map]
    · have hcount : first.toNat % 128 = first.toNat - 128 := by omega
      simp only [hcount, hshort, if_false]
      split
      · rfl
      · split
        · rfl
        · split
          · rfl
          · rename_i hlimit
            have hsize : wordLimit = 18446744073709551616 := rfl
            simp only [Length.digitLimit] at hlimit
            rw [add_of_lt (by omega)]
            simp only [lift_some, settled_ok_bind, List.length_cons, Nat.add_comm 1,
              Nat.add_lt_add_iff_right]
            split
            · rfl
            · rename_i henough
              generalize first.toNat - 128 = count at *
              have hslice : slice (first :: rest) 1 (count + 1) = some (rest.take count) := by
                rw [slice_of_le (Nat.add_comm _ _) (by rw [List.length_cons]; omega)]
                rfl
              have hdigits : (rest.take count).length ≤ 8 := by
                rw [List.length_take]
                omega
              simp only [hslice, number_eq hdigits, lift_some, settled_ok_bind, pure_eq_settled,
                Except.map, List.length_drop]
              congr 3
              omega

theorem recast_tag {octets : Octets} {base : Nat} (hword : base + octets.length < wordLimit) :
    (tag octets).recast (located base) = settled ((Tag.decode base octets).map fun (tag, rest) =>
      (tag, octets.length - rest.length)) := by
  have hlocated : FailsWith (fun error => located base error = some (error.rebase base))
      ((Tag.decode 0 octets).map fun (tag, rest) => (tag, octets.length - rest.length)) := by
    refine FailsWith.map fun error herror => located_eq fun offset hoffset => ?_
    have := (Tag.within_of_decode herror).1 offset hoffset
    omega
  rw [tag_eq (by omega), recast_settled hlocated, mapError_map, ← Tag.decode_rebase, Nat.zero_add]

theorem recast_length {octets : Octets} {base : Nat} (hword : base + octets.length < wordLimit) :
    (length octets).recast (located base) =
      settled ((Length.decode base octets).map fun (length, rest) =>
        (length, octets.length - rest.length)) := by
  have hlocated : FailsWith (fun error => located base error = some (error.rebase base))
      ((Length.decode 0 octets).map fun (length, rest) =>
        (length, octets.length - rest.length)) := by
    refine FailsWith.map fun error herror => located_eq fun offset hoffset => ?_
    have := (Length.within_of_decode herror).1 offset hoffset
    omega
  rw [length_eq (by omega), recast_settled hlocated, mapError_map, ← Length.decode_rebase,
    Nat.zero_add]

end Headers

section Moving

variable {α β : Type} (cursor : Cursor)

@[simp] theorem outcome_pure (value : α) :
    (pure value : Moving α).outcome cursor = some (.ok value, cursor) := (rfl)

@[simp] theorem outcome_throw (error : Error) :
    (throw error : Moving α).outcome cursor = some (.error error, cursor) := (rfl)

theorem outcome_bind (procedure : Moving α) (step : α → Moving β) :
    (procedure >>= step).outcome cursor =
      (procedure.outcome cursor).bind fun
        | (.error error, moved) => some (.error error, moved)
        | (.ok value, moved) => (step value).outcome moved := by
  simp only [Moving.outcome, ExceptT.run_bind, StateT.run_bind]
  cases StateT.run (ExceptT.run procedure) cursor with
  | none => rfl
  | some ended =>
    obtain ⟨result, moved⟩ := ended
    cases result <;> rfl

@[simp] theorem outcome_get_bind (step : Cursor → Moving β) :
    (get >>= step).outcome cursor = (step cursor).outcome cursor := (rfl)

@[simp] theorem outcome_set_bind (moved : Cursor) (step : PUnit → Moving β) :
    (set moved >>= step).outcome cursor = (step ⟨⟩).outcome moved := (rfl)

@[simp] theorem outcome_lift_bind (value : α) (step : α → Moving β) :
    ((liftM (some value) : Moving α) >>= step).outcome cursor = (step value).outcome cursor := (rfl)

@[simp] theorem outcome_ok_bind (value : α) (step : α → Moving β) :
    ((liftM (settled (.ok value) : Checked Error α) : Moving α) >>= step).outcome cursor =
      (step value).outcome cursor := (rfl)

@[simp] theorem outcome_error_bind (error : Error) (step : α → Moving β) :
    ((liftM (settled (.error error) : Checked Error α) : Moving α) >>= step).outcome cursor =
      some (.error error, cursor) := (rfl)

end Moving

/-- An element together with the octets that it was read from. -/
def Span.of (tlv : Tlv) : Span :=
  ⟨tlv.tag, tlv.offset, tlv.header.length, tlv.content, tlv.raw⟩

namespace Cursor

/-- The cursor stands in its buffer, all of which has offsets. -/
structure Sound (cursor : Cursor) : Prop where
  inside : cursor.position ≤ cursor.buffer.length
  addressed : cursor.base + cursor.buffer.length < wordLimit

/-- The reader of the octets that are left. -/
def reader (cursor : Cursor) : Reader :=
  ⟨cursor.rules, cursor.base + cursor.position, cursor.buffer.drop cursor.position⟩

/-- The cursor behind an element. -/
def beyond (cursor : Cursor) (tlv : Tlv) : Cursor :=
  { cursor with position := cursor.position + tlv.raw.length }

/-- The content of an element, and all of its octets. -/
theorem slices_of_body {buffer body : Octets} {position tagSize lengthSize size : Nat}
    (hbody : buffer.drop (position + tagSize + lengthSize) = body)
    (hend : position + tagSize + lengthSize + size ≤ buffer.length) :
    slice buffer (position + tagSize + lengthSize) (position + tagSize + lengthSize + size) =
        some (body.take size) ∧
      slice buffer position (position + tagSize + lengthSize + size) =
        some ((buffer.drop position).take (tagSize + lengthSize) ++ body.take size) := by
  constructor
  · rw [slice_of_le rfl hend, hbody]
  · have hsize : position + tagSize + lengthSize + size =
        position + (tagSize + lengthSize + size) := by omega
    rw [slice_of_le hsize hend, List.take_add, List.drop_drop, ← Nat.add_assoc, hbody]

/-- Reading moves the cursor as it does the reader, and not at all if it fails. -/
theorem outcome_read {cursor : Cursor} (h : cursor.Sound) :
    read.outcome cursor =
      some (match cursor.reader.read with
        | .error error => (.error error, cursor)
        | .ok (tlv, _) => (.ok (.of tlv), cursor.beyond tlv)) := by
  have hinside := h.inside
  have haddressed := h.addressed
  have hleft : (cursor.buffer.drop cursor.position).length =
      cursor.buffer.length - cursor.position := List.length_drop
  have hoffset : add cursor.base cursor.position = some (cursor.base + cursor.position) :=
    add_of_lt (by omega)
  simp only [read, outcome_get_bind, hoffset, outcome_lift_bind, slice_to_end hinside,
    recast_tag (by omega : cursor.base + cursor.position +
      (cursor.buffer.drop cursor.position).length < wordLimit),
    Reader.read, Tlv.read, reader]
  generalize hoctets : cursor.buffer.drop cursor.position = octets at *
  cases htag : Tag.decode (cursor.base + cursor.position) octets with
  | error error => simp only [Except.map, outcome_error_bind]
  | ok decoded =>
    obtain ⟨tag, afterTag⟩ := decoded
    have htagShortens := Tag.decode_shortens htag
    have hoctets' := Tag.encode_of_decode htag
    generalize hsize : octets.length - afterTag.length = tagSize
    have hafterTag : cursor.buffer.drop (cursor.position + tagSize) = afterTag := by
      rw [← List.drop_drop, hoctets, ← hsize, hoctets']
      simp
    have hstart : add cursor.position tagSize = some (cursor.position + tagSize) :=
      add_of_lt (by omega)
    have hlengthOffset : add cursor.base (cursor.position + tagSize) =
        some (cursor.base + cursor.position + tagSize) := by
      rw [add_of_lt (by omega), Nat.add_assoc]
    simp only [Except.map, outcome_ok_bind, hsize, hstart, hlengthOffset, outcome_lift_bind,
      slice_to_end (by omega : cursor.position + tagSize ≤ cursor.buffer.length), hafterTag,
      recast_length (by omega : cursor.base + cursor.position + tagSize + afterTag.length <
        wordLimit)]
    cases hlength : Length.decode (cursor.base + cursor.position + tagSize) afterTag with
    | error error => simp only [outcome_error_bind]
    | ok decoded =>
      obtain ⟨length, body⟩ := decoded
      have hlengthShortens := Length.decode_shortens hlength
      generalize hlengthSize : afterTag.length - body.length = lengthSize
      simp only [outcome_ok_bind, hlengthSize]
      split
      · simp only [outcome_throw]
      · have hcontentStart : add (cursor.position + tagSize) lengthSize =
            some (cursor.position + tagSize + lengthSize) := add_of_lt (by omega)
        have havailable : sub cursor.buffer.length (cursor.position + tagSize + lengthSize) =
            some body.length := by
          rw [sub_of_le (by omega)]
          congr 1
          omega
        simp only [hcontentStart, havailable, outcome_lift_bind]
        split
        · simp only [outcome_throw]
        · rename_i henough
          have hstop : add (cursor.position + tagSize + lengthSize) length.value =
              some (cursor.position + tagSize + lengthSize + length.value) := add_of_lt (by omega)
          have hheader : add tagSize lengthSize = some (tagSize + lengthSize) :=
            add_of_lt (by omega)
          have hbody : cursor.buffer.drop (cursor.position + tagSize + lengthSize) = body := by
            obtain ⟨written, hwritten, -⟩ := Length.front_of_decode hlength
            rw [← List.drop_drop, hafterTag, ← hlengthSize, hwritten]
            simp
          obtain ⟨hcontent, hraw⟩ := slices_of_body hbody
            (by omega : _ + length.value ≤ _)
          have hheaderSize : octets.length - body.length = tagSize + lengthSize := by omega
          have hheaderFits : min (tagSize + lengthSize) octets.length = tagSize + lengthSize := by
            omega
          have hcontentFits : min length.value body.length = length.value := by omega
          simp only [hstop, hheader, hcontent, hraw, outcome_lift_bind, outcome_set_bind,
            outcome_pure, hoctets, Span.of, beyond, Tlv.raw, hheaderSize, List.length_append,
            List.length_take, hheaderFits, hcontentFits]
          simp only [Nat.add_assoc]

theorem outcome_peek {cursor : Cursor} (h : cursor.Sound) :
    peek.outcome cursor = some (cursor.reader.peek, cursor) := by
  have hinside := h.inside
  have haddressed := h.addressed
  have hword : cursor.base + cursor.position + (cursor.buffer.drop cursor.position).length <
      wordLimit := by
    rw [List.length_drop]
    omega
  have hoffset : add cursor.base cursor.position = some (cursor.base + cursor.position) :=
    add_of_lt (by omega)
  simp only [peek, outcome_get_bind, offset, hoffset, outcome_lift_bind, slice_to_end hinside,
    recast_tag hword, Reader.peek, reader]
  cases Tag.decode (cursor.base + cursor.position) (cursor.buffer.drop cursor.position) with
  | error error => simp only [Except.map, outcome_error_bind]
  | ok decoded => simp only [Except.map, outcome_ok_bind, outcome_pure]

theorem outcome_skip {cursor : Cursor} (h : cursor.Sound) :
    skip.outcome cursor =
      some (match cursor.reader.read with
        | .error error => (.error error, cursor)
        | .ok (tlv, _) => (.ok tlv.raw.length, cursor.beyond tlv)) := by
  have hread := outcome_read h
  rw [skip, outcome_bind, hread]
  cases cursor.reader.read <;> rfl

theorem offset_eq {cursor : Cursor} (h : cursor.Sound) :
    cursor.offset = some cursor.reader.offset := by
  have := h.inside
  have := h.addressed
  exact add_of_lt (by omega)

theorem remaining_eq (cursor : Cursor) : cursor.remaining = cursor.reader.remaining.length :=
  List.length_drop.symm

theorem hasRemaining_eq (cursor : Cursor) :
    cursor.hasRemaining = !cursor.reader.remaining.isEmpty := by
  rw [Bool.eq_iff_iff]
  simp [hasRemaining, reader]

theorem finish_eq {cursor : Cursor} (h : cursor.Sound) (policy : Policy) :
    cursor.finish policy = settled (cursor.reader.finish policy) := by
  rw [finish, Reader.finish, hasRemaining_eq, offset_eq h, remaining_eq]
  cases cursor.reader.remaining.isEmpty <;> cases policy.strict <;> simp

/-- Behind an element that was read the cursor still stands in its buffer, with all that comes
after the element left. -/
theorem Sound.beyond {cursor : Cursor} (h : cursor.Sound) {tlv : Tlv} {next : Reader}
    (hread : cursor.reader.read = .ok (tlv, next)) :
    (cursor.beyond tlv).Sound ∧ (cursor.beyond tlv).reader = next := by
  rw [Reader.read] at hread
  cases htlv : Tlv.read cursor.reader.rules cursor.reader.offset cursor.reader.remaining with
  | error error =>
    rw [htlv] at hread
    cases hread
  | ok read =>
    obtain ⟨tlv', rest⟩ := read
    rw [htlv] at hread
    cases hread
    have hraw : cursor.buffer.drop cursor.position = tlv.raw ++ rest := Tlv.raw_of_read htlv
    have hend := (Tlv.endOffset_of_read htlv).2
    have hsize := congrArg List.length hraw
    have hinside := h.inside
    simp only [reader, List.length_drop, List.length_append] at hend hsize
    refine ⟨⟨?_, h.addressed⟩, ?_⟩
    · show cursor.position + tlv.raw.length ≤ cursor.buffer.length
      omega
    · simp only [reader, Cursor.beyond, Reader.mk.injEq, true_and]
      constructor
      · omega
      · rw [← List.drop_drop, hraw, List.drop_left]

theorem Sound.start {buffer : Octets} {base : Nat} (h : base + buffer.length < wordLimit)
    (rules : Rules) : (start rules buffer base).Sound :=
  ⟨Nat.zero_le _, h⟩

end Cursor

/-- All octets of the element have offsets, and it has a header. -/
structure Addressed (tlv : Tlv) : Prop where
  header : 2 ≤ tlv.header.length
  endOffset : tlv.endOffset < wordLimit

theorem contentOffset_of {tlv : Tlv} (h : Addressed tlv) :
    (Span.of tlv).contentOffset = some tlv.contentOffset := by
  have hend := h.endOffset
  rw [Tlv.endOffset, Tlv.contentOffset] at hend
  exact add_of_lt (by simp only [Span.of]; omega)

namespace Cursor

variable {cursor : Cursor} {tlv : Tlv}

theorem reader_beyond (h : cursor.Sound) {rest : Octets}
    (hread : Tlv.read cursor.reader.rules cursor.reader.offset cursor.reader.remaining =
      .ok (tlv, rest)) :
    (cursor.beyond tlv).Sound ∧ (cursor.beyond tlv).reader = ⟨cursor.rules, tlv.endOffset, rest⟩ ∧
      Addressed tlv := by
  have hnext : cursor.reader.read = .ok (tlv, ⟨cursor.rules, tlv.endOffset, rest⟩) := by
    rw [Reader.read, hread]
    rfl
  obtain ⟨hsound, hreader⟩ := h.beyond hnext
  refine ⟨hsound, hreader, (Tlv.read_length hread).1, ?_⟩
  have hoffset := congrArg Reader.offset hreader
  simp only [reader] at hoffset
  have hinside := hsound.inside
  have haddressed := hsound.addressed
  omega

theorem next_of_error (h : cursor.Sound) {error : Error}
    (hread : Tlv.read cursor.reader.rules cursor.reader.offset cursor.reader.remaining =
      .error error) : cursor.next = settled (.error error) := by
  rw [next, outcome_read h, Reader.read, hread]
  rfl

theorem next_of_read (h : cursor.Sound) {rest : Octets}
    (hread : Tlv.read cursor.reader.rules cursor.reader.offset cursor.reader.remaining =
      .ok (tlv, rest)) :
    ∃ hless, cursor.next = settled (.ok ⟨(.of tlv, cursor.beyond tlv), hless⟩) := by
  have hless : cursor.Advances (.of tlv, cursor.beyond tlv) := by
    have hsize := Tlv.read_length hread
    have hbehind := (reader_beyond h hread).2.1
    rw [Advances, remaining_eq, remaining_eq, hbehind]
    simp only [Span.of]
    omega
  refine ⟨hless, ?_⟩
  rw [next, outcome_read h, Reader.read, hread]
  simp only [Option.bind_some, dif_pos hless]
  rfl

section Stream

/-- The elements that are left. -/
def stream (cursor : Cursor) : Tlv.Stream :=
  Tlv.stream cursor.reader.rules cursor.reader.offset cursor.reader.remaining

theorem stream_start (rules : Rules) (buffer : Octets) (base : Nat) :
    (start rules buffer base).stream = Tlv.stream rules base buffer := rfl

theorem hasRemaining_of_done (hstream : cursor.stream = .done) : cursor.hasRemaining = false := by
  rw [hasRemaining_eq, Tlv.eq_nil_of_stream_done hstream]
  rfl

theorem hasRemaining_of_ne_nil (h : cursor.reader.remaining ≠ []) : cursor.hasRemaining = true := by
  simpa [hasRemaining_eq] using h

theorem next_of_broken (h : cursor.Sound) {error : Error}
    (hstream : cursor.stream = .broken error) :
    cursor.hasRemaining = true ∧ cursor.next = settled (.error error) := by
  obtain ⟨hsome, hread⟩ := Tlv.read_of_stream_broken hstream
  exact ⟨hasRemaining_of_ne_nil hsome, next_of_error h hread⟩

theorem next_of_stream (h : cursor.Sound) {rest : Tlv.Stream}
    (hstream : cursor.stream = .next tlv rest) :
    cursor.hasRemaining = true ∧
      ∃ hless, cursor.next = settled (.ok ⟨(.of tlv, cursor.beyond tlv), hless⟩) := by
  obtain ⟨left, hread, -⟩ := Tlv.read_of_stream_next hstream
  exact ⟨hasRemaining_of_ne_nil (Tlv.ne_nil_of_read hread), next_of_read h hread⟩

/-- Behind the next element the rest of the stream is left. -/
theorem stream_beyond (h : cursor.Sound) {rest : Tlv.Stream}
    (hstream : cursor.stream = .next tlv rest) :
    (cursor.beyond tlv).Sound ∧ (cursor.beyond tlv).stream = rest ∧ Addressed tlv := by
  obtain ⟨left, hread, rfl⟩ := Tlv.read_of_stream_next hstream
  obtain ⟨hsound, hreader, haddressed⟩ := reader_beyond h hread
  refine ⟨hsound, ?_, haddressed⟩
  rw [stream, hreader]
  rfl

theorem offset_of_stream {rest : Tlv.Stream} (hstream : cursor.stream = .next tlv rest) :
    tlv.offset = cursor.base + cursor.position := by
  obtain ⟨left, hread, -⟩ := Tlv.read_of_stream_next hstream
  exact Tlv.offset_of_read hread

end Stream

end Cursor

end Asn1.Machine
