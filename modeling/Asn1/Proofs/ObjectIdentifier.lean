import Asn1.ObjectIdentifier
import Asn1.Proofs.Base128

/-!
Object identifiers have one encoding, whatever the rules: encoding and decoding
undo each other.
-/

namespace Asn1.ObjectIdentifier

theorem arcLimit_eq : arcLimit = 18446744073709551615 := rfl

theorem arcLimit_groups : arcLimit % 128 = 127 := rfl

theorem toNat_le_arcLimit (arc : UInt64) : arc.toNat ≤ arcLimit := by
  have := arc.toNat_lt
  simp only [arcLimit_eq]
  omega

@[simp] theorem decodeArcs_nil : decodeArcs [] = .ok [] := by
  rw [decodeArcs]
  rfl

theorem decodeArcs_cons {arc : Nat} {octets rest : Octets}
    (h : Base128.decode arcLimit octets = .ok (arc, rest)) :
    decodeArcs octets =
      match decodeArcs rest with
      | .error cause => .error cause
      | .ok arcs => .ok (UInt64.ofNat arc :: arcs) := by
  have hsome : ¬ octets.isEmpty = true := by
    rw [List.isEmpty_iff]
    rintro rfl
    simp [Base128.decode, Base128.decodeFrom] at h
  rw [decodeArcs, if_neg hsome]
  split
  · rename_i hfault
    rw [h] at hfault
    cases hfault
  · rename_i hread
    rw [h] at hread
    cases hread
    rfl

theorem decodeArcs_encode (arcs : List UInt64) :
    decodeArcs (arcs.flatMap fun arc => Base128.encode arc.toNat) = .ok arcs := by
  induction arcs with
  | nil => exact decodeArcs_nil
  | cons arc arcs ih =>
    have hread := Base128.decode_encode (toNat_le_arcLimit arc)
      (arcs.flatMap fun arc => Base128.encode arc.toNat)
    rw [List.flatMap_cons, decodeArcs_cons hread, ih, UInt64.ofNat_toNat]

theorem encode_of_decodeArcs {content : Octets} {arcs : List UInt64}
    (h : decodeArcs content = .ok arcs) :
    (arcs.flatMap fun arc => Base128.encode arc.toNat) = content := by
  fun_induction decodeArcs content generalizing arcs with
  | case1 content hempty =>
    cases h
    exact (List.isEmpty_iff.1 hempty).symm
  | case2 => cases h
  | case3 => cases h
  | case4 content _ arc rest hread arcs' harcs ih =>
    cases h
    obtain ⟨hcontent, hlimit⟩ := Base128.encode_of_decode arcLimit_groups hread
    have harc : (UInt64.ofNat arc).toNat = arc := by
      rw [UInt64.toNat_ofNat']
      simp only [arcLimit_eq] at hlimit
      omega
    rw [List.flatMap_cons, ih harcs, harc, hcontent]

/-- What the first two arcs of an identifier are held to. -/
theorem validate_ok_iff (first second : UInt64) (rest : List UInt64) :
    validate (first :: second :: rest) = .ok () ↔
      first.toNat ≤ 2 ∧ (first.toNat < 2 → second.toNat < 40) ∧
        (first.toNat = 2 → second.toNat ≤ arcLimit - 80) := by
  simp only [validate, UInt64.lt_iff_toNat_lt, UInt64.le_iff_toNat_le, ← UInt64.toNat_inj,
    UInt64.reduceToNat]
  split
  · simp only [reduceCtorEq, false_iff]
    omega
  · split
    · simp only [reduceCtorEq, false_iff]
      omega
    · split
      · simp only [reduceCtorEq, false_iff]
        omega
      · simp only [true_iff]
        omega

theorem arcs_of_validate {arcs : List UInt64} (h : validate arcs = .ok ()) :
    ∃ first second rest, arcs = first :: second :: rest := by
  match arcs, h with
  | first :: second :: rest, _ => exact ⟨first, second, rest, rfl⟩

private theorem toNat_forty : (40 : UInt64).toNat = 40 := rfl

private theorem toNat_eighty : (80 : UInt64).toNat = 80 := rfl

/-- The common number of two valid arcs is itself an arc and tells them apart. -/
theorem unpack_pack {first second : UInt64} (hfirst : first.toNat ≤ 2)
    (hsmall : first.toNat < 2 → second.toNat < 40)
    (hlarge : first.toNat = 2 → second.toNat ≤ arcLimit - 80) :
    (UInt64.ofNat (pack first second)).toNat = pack first second ∧
      unpack (UInt64.ofNat (pack first second)) = [first, second] := by
  have hlimit := toNat_le_arcLimit second
  simp only [arcLimit_eq] at hlimit hlarge
  have hpack : (UInt64.ofNat (pack first second)).toNat = pack first second := by
    rw [UInt64.toNat_ofNat', pack]
    omega
  have hsub (n : UInt64) (hn : n.toNat ≤ pack first second) :
      (UInt64.ofNat (pack first second) - n).toNat = pack first second - n.toNat := by
    rw [UInt64.toNat_sub_of_le _ _ (by rw [UInt64.le_iff_toNat_le, hpack]; exact hn), hpack]
  refine ⟨hpack, ?_⟩
  simp only [unpack, UInt64.lt_iff_toNat_lt, hpack, toNat_forty, toNat_eighty]
  rcases (by omega : first.toNat = 0 ∨ first.toNat = 1 ∨ first.toNat = 2) with
    hzero | hone | htwo
  · have hzero' : first = 0 := UInt64.toNat_inj.1 hzero
    have hvalue : pack first second = second.toNat := by rw [pack, hzero]; omega
    rw [if_pos (by omega), hvalue, UInt64.ofNat_toNat, hzero']
  · have hone' : first = 1 := UInt64.toNat_inj.1 hone
    have hvalue : pack first second = 40 + second.toNat := by rw [pack, hone]
    have hrest : UInt64.ofNat (pack first second) - 40 = second := by
      apply UInt64.toNat_inj.1
      rw [hsub 40 (by rw [toNat_forty]; omega), toNat_forty]
      omega
    rw [if_neg (by omega), if_pos (by omega), hrest, hone']
  · have htwo' : first = 2 := UInt64.toNat_inj.1 htwo
    have hvalue : pack first second = 80 + second.toNat := by rw [pack, htwo]
    have hrest : UInt64.ofNat (pack first second) - 80 = second := by
      apply UInt64.toNat_inj.1
      rw [hsub 80 (by rw [toNat_eighty]; omega), toNat_eighty]
      omega
    rw [if_neg (by omega), if_neg (by omega), hrest, htwo']

/-- Every arc unpacks into two valid ones that pack into it again. -/
theorem pack_unpack (packed : UInt64) :
    ∃ first second, unpack packed = [first, second] ∧ pack first second = packed.toNat ∧
      first.toNat ≤ 2 ∧ (first.toNat < 2 → second.toNat < 40) ∧
      (first.toNat = 2 → second.toNat ≤ arcLimit - 80) := by
  have hpacked := packed.toNat_lt
  have hsub (n : UInt64) (hn : n.toNat ≤ packed.toNat) :
      (packed - n).toNat = packed.toNat - n.toNat :=
    UInt64.toNat_sub_of_le _ _ (UInt64.le_iff_toNat_le.2 hn)
  simp only [unpack, UInt64.lt_iff_toNat_lt, toNat_forty, toNat_eighty, arcLimit_eq, pack]
  split
  · have hzero : (0 : UInt64).toNat = 0 := rfl
    refine ⟨0, packed, rfl, ?_⟩
    rw [hzero]
    omega
  · have hone : (1 : UInt64).toNat = 1 := rfl
    split
    · refine ⟨1, packed - 40, rfl, ?_⟩
      rw [hsub 40 (by rw [toNat_forty]; omega), toNat_forty, hone]
      omega
    · have htwo : (2 : UInt64).toNat = 2 := rfl
      refine ⟨2, packed - 80, rfl, ?_⟩
      rw [hsub 80 (by rw [toNat_eighty]; omega), toNat_eighty, htwo]
      omega

theorem encode_eq_ok_iff (oid : ObjectIdentifier) (content : Octets) :
    oid.encode = .ok content ↔
      validate oid.arcs = .ok () ∧ (packed oid.arcs).flatMap Base128.encode = content := by
  rw [encode]
  cases validate oid.arcs with
  | error cause => simp [Except.map]
  | ok => simp [Except.map]

/-- The content is that of a list of arcs, the first of which is packed. -/
private theorem packed_arcs {first second : UInt64} (rest : List UInt64)
    (hpack : (UInt64.ofNat (pack first second)).toNat = pack first second) :
    (packed (first :: second :: rest)).flatMap Base128.encode =
      (UInt64.ofNat (pack first second) :: rest).flatMap fun arc => Base128.encode arc.toNat := by
  rw [packed, List.flatMap_cons, List.flatMap_cons, hpack, List.flatMap_map]

/-- The last octet of an identifier ends a number. -/
private theorem last_of_arcs {arcs : List UInt64} (h : arcs ≠ []) :
    ∃ front last, (arcs.flatMap fun arc => Base128.encode arc.toNat) = front ++ [last] ∧
      last.toNat < 128 := by
  obtain ⟨init, arc, rfl⟩ : ∃ init arc, arcs = init ++ [arc] := by
    exact ⟨_, _, (List.dropLast_concat_getLast h).symm⟩
  refine ⟨(init.flatMap fun arc => Base128.encode arc.toNat) ++ Base128.leading (arc.toNat / 128),
    UInt8.ofNat (arc.toNat % 128), ?_, ?_⟩
  · simp [Base128.encode]
  · rw [UInt8.toNat_ofNat']
    omega

theorem decode_encode {oid : ObjectIdentifier} {content : Octets}
    (h : oid.encode = .ok content) : decode content = .ok oid := by
  obtain ⟨hvalid, hcontent⟩ := (encode_eq_ok_iff oid content).1 h
  obtain ⟨arcs⟩ := oid
  obtain ⟨first, second, rest, rfl⟩ := arcs_of_validate hvalid
  obtain ⟨hfirst, hsmall, hlarge⟩ := (validate_ok_iff first second rest).1 hvalid
  obtain ⟨hpack, hunpack⟩ := unpack_pack hfirst hsmall hlarge
  have harcs := packed_arcs rest hpack
  rw [hcontent] at harcs
  obtain ⟨front, last, hlast, hends⟩ :=
    last_of_arcs (List.cons_ne_nil (UInt64.ofNat (pack first second)) rest)
  rw [← harcs] at hlast
  have hsome : ¬ content.isEmpty = true := by simp [hlast]
  have hfinished : ¬ 0x80 ≤ content.getLastD 0 := by
    rw [hlast, List.getLastD_concat, UInt8.le_iff_toNat_le]
    exact Nat.not_le.2 hends
  rw [decode, if_neg hsome, if_neg hfinished, harcs, decodeArcs_encode]
  simp only [hunpack, List.cons_append, List.nil_append]

/-- What is written for the arcs that a common number and those behind it stand for. -/
theorem encode_unpack (packed : UInt64) (arcs : List UInt64) :
    encode ⟨unpack packed ++ arcs⟩ =
      .ok ((packed :: arcs).flatMap fun arc => Base128.encode arc.toNat) := by
  obtain ⟨first, second, hunpack, hpack, hvalid⟩ := pack_unpack packed
  rw [encode_eq_ok_iff, hunpack]
  refine ⟨(validate_ok_iff first second arcs).2 hvalid, ?_⟩
  rw [List.cons_append, List.cons_append, List.nil_append,
    packed_arcs arcs (by rw [hpack, UInt64.ofNat_toNat]), hpack, UInt64.ofNat_toNat]

theorem encode_of_decode {oid : ObjectIdentifier} {content : Octets}
    (h : decode content = .ok oid) : oid.encode = .ok content := by
  simp only [decode] at h
  split at h
  · cases h
  · split at h
    · cases h
    · split at h
      · cases h
      · cases h
      · rename_i packed arcs harcs
        cases h
        rw [encode_unpack, encode_of_decodeArcs harcs]

/-- What is asked of the arcs of an identifier: that there are two, and that these go together. -/
def Identifies : List Nat → Prop
  | first :: second :: _ =>
    first ≤ 2 ∧ (first < 2 → second < 40) ∧ (first = 2 → second ≤ 2 ^ 64 - 81)
  | _ => False

theorem validate_eq_ok_iff (arcs : List UInt64) :
    validate arcs = .ok () ↔ Identifies (arcs.map UInt64.toNat) := by
  match arcs with
  | [] => simp [validate, Identifies]
  | [_] => simp [validate, Identifies]
  | first :: second :: rest => exact validate_ok_iff first second rest

theorem new_eq_ok_iff (arcs : List UInt64) (oid : ObjectIdentifier) :
    new arcs = .ok oid ↔ oid.arcs = arcs ∧ Identifies (arcs.map UInt64.toNat) := by
  rw [← validate_eq_ok_iff, new]
  cases validate arcs with
  | error cause => simp [Except.map]
  | ok =>
    obtain ⟨arcs'⟩ := oid
    simp [Except.map, eq_comm]

/-- No sum that is written for two arcs is beyond a word. -/
theorem packed_lt {arcs : List UInt64} (h : Identifies (arcs.map UInt64.toNat)) :
    ∀ number ∈ packed arcs, number < 2 ^ 64 := by
  obtain ⟨first, second, rest, rfl⟩ := arcs_of_validate ((validate_eq_ok_iff arcs).2 h)
  obtain ⟨hfirst, hsmall, hlarge⟩ := h
  have hsecond := second.toNat_lt
  intro number hmem
  rw [packed, List.mem_cons, List.mem_map] at hmem
  obtain rfl | ⟨arc, -, rfl⟩ := hmem
  · rw [pack]
    omega
  · exact arc.toNat_lt

theorem packed_ne_nil {arcs : List UInt64} (h : Identifies (arcs.map UInt64.toNat)) :
    packed arcs ≠ [] := by
  obtain ⟨first, second, rest, rfl⟩ := arcs_of_validate ((validate_eq_ok_iff arcs).2 h)
  exact List.cons_ne_nil _ _

/-- Minimal groups are those that are written for the words that they stand for. -/
private theorem flatten_minimal {numbers : List Octets}
    (h : ∀ octets ∈ numbers, Base128.Minimal octets ∧ Base128.value octets < 2 ^ 64) :
    numbers.flatten =
      (numbers.map fun octets => UInt64.ofNat (Base128.value octets)).flatMap
        fun arc => Base128.encode arc.toNat := by
  induction numbers with
  | nil => rfl
  | cons octets numbers ih =>
    obtain ⟨hminimal, hvalue⟩ := h octets (by simp)
    have hword : (UInt64.ofNat (Base128.value octets)).toNat = Base128.value octets := by
      rw [UInt64.toNat_ofNat']
      omega
    have hoctets : octets = Base128.encode (Base128.value octets) :=
      (Base128.eq_encode_iff octets _).2 ⟨hminimal, rfl⟩
    rw [List.flatten_cons, List.map_cons, List.flatMap_cons, hword, ← hoctets,
      ih fun octets hmem => h octets (List.mem_cons_of_mem _ hmem)]

/-- Which contents are read, told without the arcs. -/
theorem exists_decode_iff (content : Octets) :
    (∃ oid, decode content = .ok oid) ↔
      ∃ numbers : List Octets, numbers ≠ [] ∧
        (∀ octets ∈ numbers, Base128.Minimal octets ∧ Base128.value octets < 2 ^ 64) ∧
        content = numbers.flatten := by
  constructor
  · rintro ⟨oid, h⟩
    obtain ⟨hvalid, rfl⟩ := (encode_eq_ok_iff oid content).1 (encode_of_decode h)
    rw [validate_eq_ok_iff] at hvalid
    refine ⟨(packed oid.arcs).map Base128.encode, ?_, ?_, List.flatMap_def⟩
    · rw [Ne, List.map_eq_nil_iff]
      exact packed_ne_nil hvalid
    · intro octets hmem
      obtain ⟨number, hnumber, hoctets⟩ := List.mem_map.1 hmem
      obtain ⟨hminimal, hvalue⟩ := (Base128.eq_encode_iff octets number).1 hoctets.symm
      rw [hvalue]
      exact ⟨hminimal, packed_lt hvalid number hnumber⟩
  · rintro ⟨numbers, hsome, hnumbers, rfl⟩
    obtain ⟨first, rest, rfl⟩ := List.exists_cons_of_ne_nil hsome
    rw [flatten_minimal hnumbers, List.map_cons]
    exact ⟨_, decode_encode (encode_unpack _ _)⟩

end Asn1.ObjectIdentifier
