import Asn1.Proofs.Machine.Reader
import Asn1.Proofs.Tlv

/-!
Elements read one after another. They lie without a gap between them and are those that were
written; whatever follows them is not looked at. A reader that fails stays where it is.
-/

namespace Asn1

namespace Tlv

theorem endOffset_eq (tlv : Tlv) : tlv.endOffset = tlv.offset + tlv.raw.length := by
  rw [endOffset, contentOffset, raw, List.length_append, Nat.add_assoc]

/-- The octets of elements written one after another. -/
def encodeAll (pairs : List (Tag × Octets)) : Octets :=
  pairs.foldl (fun written (tag, content) => written ++ encode tag content) []

/-- Elements as they are written, the first one at `offset`. -/
def laidOut (offset : Nat) : List (Tag × Octets) → List Tlv
  | [] => []
  | (tag, content) :: pairs =>
    ⟨tag, offset, headerOctets tag content.length, content⟩ ::
      laidOut (offset + (encode tag content).length) pairs

theorem foldl_encode (written : Octets) (pairs : List (Tag × Octets)) :
    pairs.foldl (fun written (tag, content) => written ++ encode tag content) written =
      written ++ encodeAll pairs := by
  induction pairs generalizing written with
  | nil => simp [encodeAll]
  | cons pair pairs ih =>
    have hfirst : encodeAll (pair :: pairs) = encode pair.1 pair.2 ++ encodeAll pairs := ih _
    rw [List.foldl_cons, ih, hfirst, List.append_assoc]

theorem encodeAll_cons (tag : Tag) (content : Octets) (pairs : List (Tag × Octets)) :
    encodeAll ((tag, content) :: pairs) = encode tag content ++ encodeAll pairs :=
  foldl_encode (encode tag content) pairs

theorem length_laidOut (offset : Nat) (pairs : List (Tag × Octets)) :
    (laidOut offset pairs).length = pairs.length := by
  induction pairs generalizing offset with
  | nil => rfl
  | cons pair pairs ih => exact congrArg Nat.succ (ih _)

/-- Each element lies behind those written before it. -/
theorem getElem?_laidOut {pairs : List (Tag × Octets)} {index : Nat} {tag : Tag}
    {content : Octets} (h : pairs[index]? = some (tag, content)) (offset : Nat) :
    (laidOut offset pairs)[index]? =
      some ⟨tag, offset + (encodeAll (pairs.take index)).length, headerOctets tag content.length,
        content⟩ := by
  induction pairs generalizing index offset with
  | nil => cases h
  | cons pair pairs ih =>
    cases index with
    | zero =>
      cases h
      rfl
    | succ index =>
      rw [List.getElem?_cons_succ] at h
      rw [laidOut, List.getElem?_cons_succ, ih h, List.take_succ_cons, encodeAll_cons,
        List.length_append, Nat.add_assoc]

theorem splits_laidOut {pairs : List (Tag × Octets)}
    (h : ∀ pair ∈ pairs, pair.2.length < Length.limit) (rules : Rules) (offset : Nat) :
    Splits rules offset (encodeAll pairs) (laidOut offset pairs) := by
  induction pairs generalizing offset with
  | nil => exact .nil offset
  | cons pair pairs ih =>
    obtain ⟨hpair, hpairs⟩ := List.forall_mem_cons.1 h
    obtain ⟨tag, content⟩ := pair
    have hlegible : (⟨tag, offset, headerOctets tag content.length, content⟩ : Tlv).Legible
        rules := read_encode_alone hpair rules tag offset
    have hend : (⟨tag, offset, headerOctets tag content.length, content⟩ : Tlv).endOffset =
        offset + (encode tag content).length := endOffset_eq _
    rw [encodeAll_cons]
    exact .cons hlegible (hend ▸ ih hpairs _)

theorem splits_cons_iff {rules : Rules} {offset : Nat} {octets : Octets} {tlv : Tlv}
    {tlvs : List Tlv} :
    Splits rules offset octets (tlv :: tlvs) ↔
      tlv.Legible rules ∧ tlv.offset = offset ∧
        ∃ rest, octets = tlv.raw ++ rest ∧ Splits rules tlv.endOffset rest tlvs := by
  constructor
  · intro h
    cases h with
    | cons hlegible hrest => exact ⟨hlegible, rfl, _, rfl, hrest⟩
  · rintro ⟨hlegible, rfl, rest, rfl, hrest⟩
    exact .cons hlegible hrest

/-- Each element lies behind those before it. -/
theorem Splits.offset_eq {rules : Rules} {offset : Nat} {octets : Octets} {before after : List Tlv}
    {tlv : Tlv} (h : Splits rules offset octets (before ++ tlv :: after)) :
    tlv.offset = offset + (before.map raw).flatten.length := by
  induction before generalizing offset octets with
  | nil => exact (splits_cons_iff.1 h).2.1
  | cons first before ih =>
    obtain ⟨-, hoffset, rest, -, hrest⟩ := splits_cons_iff.1 h
    rw [ih hrest, endOffset_eq, hoffset, List.map_cons, List.flatten_cons, List.length_append,
      Nat.add_assoc]

theorem Splits.legible {rules : Rules} {offset : Nat} {octets : Octets} {tlvs : List Tlv}
    (h : Splits rules offset octets tlvs) {tlv : Tlv} (htlv : tlv ∈ tlvs) : tlv.Legible rules := by
  induction h with
  | nil => cases htlv
  | cons hlegible _ ih =>
    rcases List.mem_cons.1 htlv with rfl | hlater
    · exact hlegible
    · exact ih hlater

end Tlv

namespace Reader

/-- The next `count` elements, and the reader behind them. -/
def readMany (reader : Reader) : Nat → Except Error (List Tlv × Reader)
  | 0 => .ok ([], reader)
  | count + 1 =>
    reader.read.bind fun (tlv, next) =>
      (next.readMany count).map fun (tlvs, last) => (tlv :: tlvs, last)

/-- An element is read where its octets come next, whatever comes after them. -/
theorem read_eq_ok_iff {reader next : Reader} {tlv : Tlv} :
    reader.read = .ok (tlv, next) ↔
      tlv.Legible reader.rules ∧ tlv.offset = reader.offset ∧
        reader.remaining = tlv.raw ++ next.remaining ∧
        next.rules = reader.rules ∧ next.offset = tlv.endOffset := by
  constructor
  · intro h
    rw [read] at h
    split at h
    · cases h
    · rename_i hread
      cases h
      exact ⟨Tlv.legible_of_read hread, Tlv.offset_of_read hread, Tlv.raw_of_read hread, rfl, rfl⟩
  · rintro ⟨hlegible, hoffset, hremaining, hrules, hend⟩
    have hread := Tlv.read_again hlegible id reader.offset next.remaining
    rw [← hremaining, ← hoffset] at hread
    obtain ⟨rules, offset, remaining⟩ := next
    rw [read, hoffset.symm, hread]
    simp only at hrules hend
    rw [hrules, hend]

theorem readMany_succ_eq_ok_iff {reader last : Reader} {count : Nat} {tlvs : List Tlv} :
    reader.readMany (count + 1) = .ok (tlvs, last) ↔
      ∃ tlv next rest, reader.read = .ok (tlv, next) ∧ next.readMany count = .ok (rest, last) ∧
        tlvs = tlv :: rest := by
  rw [readMany]
  cases reader.read with
  | error error => simp [Except.bind]
  | ok read =>
    obtain ⟨tlv, next⟩ := read
    simp only [Except.bind]
    cases hmore : next.readMany count with
    | error error =>
      constructor
      · rintro ⟨⟩
      · rintro ⟨_, _, _, ⟨⟩, hrest, -⟩
        rw [hmore] at hrest
        cases hrest
    | ok more =>
      constructor
      · rintro ⟨⟩
        exact ⟨tlv, next, more.1, rfl, hmore, rfl⟩
      · rintro ⟨_, _, _, ⟨⟩, hrest, rfl⟩
        rw [hmore] at hrest
        cases hrest
        rfl

/-- What is read are the elements that the octets begin with, up to where the reader stands
then. -/
theorem readMany_eq_ok_iff {reader last : Reader} {count : Nat} {tlvs : List Tlv} :
    reader.readMany count = .ok (tlvs, last) ↔
      tlvs.length = count ∧
        Tlv.Splits reader.rules reader.offset (tlvs.map Tlv.raw).flatten tlvs ∧
        reader.remaining = (tlvs.map Tlv.raw).flatten ++ last.remaining ∧
        last.rules = reader.rules ∧
        last.offset = reader.offset + (tlvs.map Tlv.raw).flatten.length := by
  induction count generalizing reader tlvs with
  | zero =>
    constructor
    · rintro ⟨⟩
      exact ⟨rfl, .nil _, rfl, rfl, rfl⟩
    · rintro ⟨hnone, -, hremaining, hrules, hoffset⟩
      obtain rfl := List.length_eq_zero_iff.1 hnone
      obtain ⟨rules, offset, remaining⟩ := last
      cases hremaining
      cases hrules
      cases hoffset
      rfl
  | succ count ih =>
    rw [readMany_succ_eq_ok_iff]
    constructor
    · rintro ⟨tlv, next, rest, hread, hmore, rfl⟩
      obtain ⟨hlegible, hbegin, hremaining, hrules, hend⟩ := read_eq_ok_iff.1 hread
      obtain ⟨rfl, hsplits, hremaining', hrules', hend'⟩ := ih.1 hmore
      rw [hrules, hend] at hsplits
      rw [List.map_cons, List.flatten_cons]
      refine ⟨rfl, Tlv.splits_cons_iff.2 ⟨hlegible, hbegin, _, rfl, hsplits⟩, ?_,
        hrules'.trans hrules, ?_⟩
      · rw [hremaining, hremaining', List.append_assoc]
      · rw [hend', hend, ← hbegin, Tlv.endOffset_eq, List.length_append, Nat.add_assoc]
    · rintro ⟨hcount, hsplits, hremaining, hrules, hoffset⟩
      obtain ⟨tlv, rest, rfl⟩ := List.exists_cons_of_length_eq_add_one hcount
      rw [List.map_cons, List.flatten_cons] at hsplits hremaining hoffset
      obtain ⟨hlegible, hbegin, octets, hoctets, hrest⟩ := Tlv.splits_cons_iff.1 hsplits
      obtain rfl := List.append_cancel_left hoctets
      refine ⟨tlv, ⟨reader.rules, tlv.endOffset, (rest.map Tlv.raw).flatten ++ last.remaining⟩,
        rest, read_eq_ok_iff.2 ⟨hlegible, hbegin, ?_, rfl, rfl⟩,
        ih.2 ⟨Nat.succ.inj hcount, hrest, rfl, hrules, ?_⟩, rfl⟩
      · rw [hremaining, List.append_assoc]
      · rw [hoffset, ← hbegin, Tlv.endOffset_eq, List.length_append, Nat.add_assoc]

/-- What was written is read back in order and to its end, under either rules and wherever it
lies: each element behind those before it, with all of its octets. Whatever is read, the octets
of the elements lie one behind the other and are all that was consumed; the same elements are read
in front of anything else, and under the distinguished rules their octets are those that writing
them gives. A cursor does the same, and one that fails stays where it is. -/
theorem elements_read_as_written (rules : Rules) (base : Nat) :
    (∀ pairs : List (Tag × Octets), (∀ pair ∈ pairs, pair.2.length < Length.limit) →
      ∃ tlvs,
        (Reader.mk rules base (Tlv.encodeAll pairs)).readMany pairs.length =
          .ok (tlvs, ⟨rules, base + (Tlv.encodeAll pairs).length, []⟩) ∧
        tlvs.length = pairs.length ∧
        ∀ index tag content, pairs[index]? = some (tag, content) →
          ∃ tlv, tlvs[index]? = some tlv ∧ tlv.tag = tag ∧ tlv.content = content ∧
            tlv.offset = base + (Tlv.encodeAll (pairs.take index)).length ∧
            tlv.raw = Tlv.encode tag content ∧
            tlv.header.length + tlv.content.length = tlv.raw.length) ∧
    (∀ (reader last : Reader) (count : Nat) (tlvs : List Tlv),
      reader.readMany count = .ok (tlvs, last) →
        reader.remaining = (tlvs.map Tlv.raw).flatten ++ last.remaining ∧
        last.offset = reader.offset + (tlvs.map Tlv.raw).flatten.length ∧
        (∀ before tlv after, tlvs = before ++ tlv :: after →
          tlv.offset = reader.offset + (before.map Tlv.raw).flatten.length) ∧
        (reader.rules = .distinguished → ∀ tlv ∈ tlvs, tlv.raw = Tlv.encode tlv.tag tlv.content) ∧
        ∀ following,
          { reader with remaining := (tlvs.map Tlv.raw).flatten ++ following }.readMany count =
            .ok (tlvs, { last with remaining := following })) ∧
    ∀ cursor : Machine.Cursor, cursor.Sound →
      (∀ tlv next, cursor.reader.read = .ok (tlv, next) →
        Machine.Cursor.read.outcome cursor = some (.ok (.of tlv), cursor.beyond tlv) ∧
        Machine.Cursor.skip.outcome cursor = some (.ok tlv.raw.length, cursor.beyond tlv) ∧
        (cursor.beyond tlv).Sound ∧ (cursor.beyond tlv).reader = next) ∧
      (∀ error, cursor.reader.read = .error error →
        Machine.Cursor.read.outcome cursor = some (.error error, cursor) ∧
        Machine.Cursor.skip.outcome cursor = some (.error error, cursor)) ∧
      Machine.Cursor.peek.outcome cursor = some (cursor.reader.peek, cursor) := by
  refine ⟨?_, ?_, ?_⟩
  · intro pairs hpairs
    have hsplits := Tlv.splits_laidOut hpairs rules base
    have hraws := hsplits.octets_eq
    refine ⟨Tlv.laidOut base pairs, ?_, Tlv.length_laidOut base pairs, ?_⟩
    · apply readMany_eq_ok_iff.2
      rw [← hraws]
      exact ⟨Tlv.length_laidOut base pairs, hsplits, (List.append_nil _).symm, rfl, rfl⟩
    · intro index tag content hindex
      exact ⟨_, Tlv.getElem?_laidOut hindex base, rfl, rfl, rfl, rfl, List.length_append.symm⟩
  · intro reader last count tlvs h
    obtain ⟨hcount, hsplits, hremaining, hrules, hoffset⟩ := readMany_eq_ok_iff.1 h
    refine ⟨hremaining, hoffset, ?_, ?_, ?_⟩
    · rintro before tlv after rfl
      exact hsplits.offset_eq
    · intro hder tlv htlv
      have hlegible := hsplits.legible htlv
      rw [hder] at hlegible
      exact hlegible.raw_eq_encode
    · intro following
      exact readMany_eq_ok_iff.2 ⟨hcount, hsplits, rfl, hrules, hoffset⟩
  · intro cursor hsound
    have hread := Machine.Cursor.outcome_read hsound
    have hskip := Machine.Cursor.outcome_skip hsound
    refine ⟨?_, ?_, Machine.Cursor.outcome_peek hsound⟩
    · intro tlv next hok
      rw [hok] at hread hskip
      exact ⟨hread, hskip, hsound.beyond hok⟩
    · intro error herror
      rw [herror] at hread hskip
      exact ⟨hread, hskip⟩

/-- A number and an octet under a long tag, read in turn; the number again, before other octets;
and what is announced to be longer than it is, before which a cursor stays. -/
theorem number_and_long_tag_read_as_written :
    (∃ tlvs,
      (Reader.mk .basic 10 [0x02, 0x01, 0x05, 0x9F, 0x1F, 0x01, 0xAA]).readMany 2 =
          .ok (tlvs, ⟨.basic, 17, []⟩) ∧
        ∃ tlv, tlvs[1]? = some tlv ∧ tlv.tag = ⟨.context, false, 31⟩ ∧ tlv.content = [0xAA] ∧
          tlv.offset = 13 ∧ tlv.raw = [0x9F, 0x1F, 0x01, 0xAA]) ∧
      (Reader.mk .distinguished 10 [0x02, 0x01, 0x05, 0x30, 0x80]).readMany 1 =
        .ok ([⟨.integer, 10, [0x02, 0x01], [0x05]⟩], ⟨.distinguished, 13, [0x30, 0x80]⟩) ∧
      Machine.Cursor.read.outcome ⟨.basic, [0x02, 0x01, 0x05, 0x30, 0x02, 0x05], 3, 10⟩ =
        some (.error (.malformed 13 (.lengthExceeds 2 1)),
          ⟨.basic, [0x02, 0x01, 0x05, 0x30, 0x02, 0x05], 3, 10⟩) := by
  have hlong : Tlv.encode ⟨.context, false, 31⟩ [0xAA] = [0x9F, 0x1F, 0x01, 0xAA] := by
    decide +kernel
  have hwritten : Tlv.encodeAll [(.integer, [0x05]), (⟨.context, false, 31⟩, [0xAA])] =
      [0x02, 0x01, 0x05, 0x9F, 0x1F, 0x01, 0xAA] := by
    decide +kernel
  refine ⟨?_, ?_, ?_⟩
  · obtain ⟨tlvs, hread, -, helements⟩ := (elements_read_as_written .basic 10).1
      [(.integer, [0x05]), (⟨.context, false, 31⟩, [0xAA])] (by decide)
    obtain ⟨tlv, hindex, htag, hcontent, hoffset, hraw, -⟩ :=
      helements 1 ⟨.context, false, 31⟩ [0xAA] rfl
    rw [hwritten] at hread
    exact ⟨tlvs, hread, tlv, hindex, htag, hcontent, hoffset, hraw.trans hlong⟩
  · exact ((elements_read_as_written .basic 0).2.1 ⟨.distinguished, 10, [0x02, 0x01, 0x05]⟩
      ⟨.distinguished, 13, []⟩ 1 [⟨.integer, 10, [0x02, 0x01], [0x05]⟩] (by rfl)).2.2.2.2
      [0x30, 0x80]
  · exact (((elements_read_as_written .basic 0).2.2 _ ⟨by decide, by decide⟩).2.1 _ (by rfl)).1

end Reader

end Asn1
