import PacketFence.Foundations.Bytes
import PacketFence.Foundations.Failure
import PacketFence.Pfacct.NetFlow

/-!
# Vendor-specific attributes

The attributes of an accounting request become a map by name. Parsing a packet
checks the lengths of its attributes, not those of the attributes a vendor packs
into one of them: the loop over these slices the bytes with a length that is
itself one of the bytes.
-/

namespace PacketFence.Pfacct

open Foundations List

inductive Panic where
  | sliceBoundsOutOfRange
  | indexOutOfRange
  | interfaceConversion

/-- `bytes[low:high]`, of a slice that is as long as its capacity. -/
def slice (bytes : Bytes) (low high : Nat) : Except Panic Bytes :=
  if low ≤ high ∧ high ≤ bytes.length then .ok ((bytes.take high).drop low)
  else .error .sliceBoundsOutOfRange

inductive AttributeType where
  | string
  | integer
  | integer64
  | ipAddr
  | date
  | other

structure DictionaryAttribute where
  name : String
  type : AttributeType

structure Dictionary where
  /-- `GetAttributeByOID` of a single number -/
  attributeByOID : Nat → Option DictionaryAttribute
  /-- `GetVendorByNumber`, with `AttributeByOID` of its attributes -/
  vendorByNumber : Nat → Option (Nat → Option DictionaryAttribute)
  /-- `time.Time.String` of a Unix time -/
  dateString : Nat → Bytes
  /-- `mac.NewFromString`, written out again -/
  macString : Bytes → Option Bytes

inductive Item where
  | string (bytes : Bytes)
  | integer (value : Nat)

inductive Value where
  | one (item : Item)
  | many (items : List Item)

abbrev AttributeMap := String → Option Value

def bigEndian (bytes : Bytes) : Nat :=
  bytes.foldl (fun value byte => value * 256 + byte.toNat) 0

/-- The address of four bytes, as a text. -/
def ipString : Bytes → Option Bytes
  | [first, second, third, fourth] =>
    some (asciiBytes (Ipv4.string
      ⟨first.toBitVec, second.toBitVec, third.toBitVec, fourth.toBitVec⟩))
  | _ => none

def Dictionary.item (dictionary : Dictionary) (type : AttributeType) (attr : Bytes) :
    Option Item :=
  match type with
  | .string => some (.string attr)
  | .integer => if attr.length = 4 then some (.integer (bigEndian attr)) else none
  | .integer64 => if attr.length = 8 then some (.integer (bigEndian attr)) else none
  | .ipAddr => (ipString attr).map .string
  | .date =>
    if attr.length = 4 then some (.string (dictionary.dateString (bigEndian attr))) else none
  | .other => none

def addAttributeToMap (dictionary : Dictionary) (attributes : AttributeMap)
    (da : DictionaryAttribute) (attr : Bytes) : AttributeMap :=
  match dictionary.item da.type attr with
  | none => attributes
  | some item =>
    let value : Value :=
      match attributes da.name with
      | some (.many items) => .many (items ++ [item])
      | some (.one old) => .many [old, item]
      | none => .one item
    Function.update attributes da.name (some value)

theorem slice_eq_ok {bytes sliced : Bytes} {low high : Nat} :
    slice bytes low high = .ok sliced ↔
      (low ≤ high ∧ high ≤ bytes.length) ∧ (bytes.take high).drop low = sliced := by
  unfold slice
  split
  next inside => simp [inside]
  next outside => simp [outside]

def vsaLoop (dictionary : Dictionary) (vendor : Nat → Option DictionaryAttribute)
    (attributes : AttributeMap) (vsa : Bytes) : Except Panic AttributeMap :=
  match vsa with
  | vsaTyp :: vsaLen :: byte :: rest =>
    match _sliced : slice (vsaTyp :: vsaLen :: byte :: rest) 2 vsaLen.toNat with
    | .error panic => .error panic
    | .ok data =>
      match _advanced : slice (vsaTyp :: vsaLen :: byte :: rest) vsaLen.toNat
          (vsaTyp :: vsaLen :: byte :: rest).length with
      | .error panic => .error panic
      | .ok remaining =>
        match vendor vsaTyp.toNat with
        | none => vsaLoop dictionary vendor attributes remaining
        | some da =>
          vsaLoop dictionary vendor (addAttributeToMap dictionary attributes da data)
            remaining
  | _ => .ok attributes
termination_by vsa.length
decreasing_by
  all_goals
    obtain ⟨⟨atLeast, _⟩, _⟩ := slice_eq_ok.mp _sliced
    obtain ⟨_, rfl⟩ := slice_eq_ok.mp _advanced
    rw [List.take_length, List.length_drop]
    simp only [List.length_cons]
    omega

/-- `radius.VendorSpecific`: the number of the vendor and a copy of what follows it. -/
def vendorSpecific (attr : Bytes) : Option (Nat × Bytes) :=
  if attr.length < 5 then none else some (bigEndian (attr.take 4), attr.drop 4)

def addVendorSpecific (dictionary : Dictionary) (attributes : AttributeMap) (vattrs : Bytes) :
    Except Panic AttributeMap :=
  match vendorSpecific vattrs with
  | none => .ok attributes
  | some (id, vsa) =>
    match dictionary.vendorByNumber id with
    | none => .ok attributes
    | some vendor => vsaLoop dictionary vendor attributes vsa

structure Packet where
  attributes : List (UInt8 × List Bytes)
  distinct : (attributes.map Prod.fst).Nodup
  nonempty : ∀ entry ∈ attributes, entry.2 ≠ []
  bounded : ∀ entry ∈ attributes, ∀ attr ∈ entry.2, attr.length ≤ 253

def vendorSpecificType : UInt8 := 26

def addAttributes (dictionary : Dictionary) (attributes : AttributeMap)
    (entry : UInt8 × List Bytes) : Except Panic AttributeMap :=
  if entry.1 = vendorSpecificType then
    entry.2.foldlM (addVendorSpecific dictionary) attributes
  else
    match dictionary.attributeByOID entry.1.toNat with
    | none => .ok attributes
    | some da =>
      match entry.2 with
      | [] => .error .indexOutOfRange
      | attr :: _ => .ok (addAttributeToMap dictionary attributes da attr)

def normalizeStation (dictionary : Dictionary) (attributes : AttributeMap) :
    Except Panic AttributeMap :=
  match attributes "Calling-Station-Id" with
  | none => .ok attributes
  | some (.one (.string text)) =>
    match dictionary.macString text with
    | none => .ok attributes
    | some mac =>
      .ok (Function.update attributes "Calling-Station-Id" (some (.one (.string mac))))
  | some _ => .error .interfaceConversion

def packetToMap (dictionary : Dictionary) (packet : Packet) : Except Panic AttributeMap :=
  (packet.attributes.foldlM (addAttributes dictionary) fun _ => none).bind
    (normalizeStation dictionary)

/-- Attributes whose second byte is their length, and at most two bytes more. -/
inductive WellFormedVsa : Bytes → Prop where
  | tail {vsa : Bytes} (short : vsa.length < 3) : WellFormedVsa vsa
  | subattribute {vsaTyp vsaLen : UInt8} {data rest : Bytes}
      (own : vsaLen.toNat = data.length + 2) (more : WellFormedVsa rest) :
      WellFormedVsa (vsaTyp :: vsaLen :: (data ++ rest))

def SafeVendorSpecific (dictionary : Dictionary) (vattrs : Bytes) : Prop :=
  ∀ id vsa vendor, vendorSpecific vattrs = some (id, vsa) →
    dictionary.vendorByNumber id = some vendor → WellFormedVsa vsa

section Loop

variable {dictionary : Dictionary} {vendor : Nat → Option DictionaryAttribute}
  {attributes : AttributeMap} {vsaTyp vsaLen byte : UInt8} {rest : Bytes}

theorem vsaLoop_step (attributes : AttributeMap)
    (inside : 2 ≤ vsaLen.toNat ∧ vsaLen.toNat ≤ (vsaTyp :: vsaLen :: byte :: rest).length) :
    ∃ next, vsaLoop dictionary vendor attributes (vsaTyp :: vsaLen :: byte :: rest) =
      vsaLoop dictionary vendor next ((vsaTyp :: vsaLen :: byte :: rest).drop vsaLen.toNat) := by
  have sliced := slice_eq_ok.mpr ⟨inside, rfl⟩
  have advanced : slice (vsaTyp :: vsaLen :: byte :: rest) vsaLen.toNat
      (vsaTyp :: vsaLen :: byte :: rest).length =
        .ok ((vsaTyp :: vsaLen :: byte :: rest).drop vsaLen.toNat) :=
    slice_eq_ok.mpr ⟨⟨inside.2, le_rfl⟩, by rw [take_length]⟩
  rw [vsaLoop]
  split
  next panic failed => rw [sliced] at failed; cases failed
  next data found =>
    split
    next panic failed => rw [advanced] at failed; cases failed
    next remaining found =>
      rw [advanced] at found
      cases found
      split
      · exact ⟨_, rfl⟩
      · exact ⟨_, rfl⟩

theorem vsaLoop_panics
    (outside : ¬ (2 ≤ vsaLen.toNat ∧ vsaLen.toNat ≤ (vsaTyp :: vsaLen :: byte :: rest).length)) :
    vsaLoop dictionary vendor attributes (vsaTyp :: vsaLen :: byte :: rest) =
      .error .sliceBoundsOutOfRange := by
  have sliced : slice (vsaTyp :: vsaLen :: byte :: rest) 2 vsaLen.toNat =
      .error .sliceBoundsOutOfRange := if_neg outside
  rw [vsaLoop]
  split
  next panic failed => rw [sliced] at failed; cases failed; rfl
  next data found => rw [sliced] at found; cases found

variable {vsa : Bytes} {entry : UInt8 × List Bytes}

theorem vsaLoop_short (short : vsa.length < 3) :
    vsaLoop dictionary vendor attributes vsa = .ok attributes := by
  match vsa, short with
  | [], _ => rw [vsaLoop]; simp
  | [_], _ => rw [vsaLoop]; simp
  | [_, _], _ => rw [vsaLoop]; simp
  | _ :: _ :: _ :: _, long => simp at long; omega

/-- At least three bytes are well formed if the second one is a length inside,
and what follows after so many bytes is well formed. -/
theorem wellFormedVsa_cons_iff :
    WellFormedVsa (vsaTyp :: vsaLen :: byte :: rest) ↔
      (2 ≤ vsaLen.toNat ∧ vsaLen.toNat ≤ (vsaTyp :: vsaLen :: byte :: rest).length) ∧
        WellFormedVsa ((vsaTyp :: vsaLen :: byte :: rest).drop vsaLen.toNat) := by
  constructor
  · intro wellFormed
    generalize bytes : vsaTyp :: vsaLen :: byte :: rest = vsa at wellFormed ⊢
    cases wellFormed with
    | tail short => rw [← bytes] at short; simp at short; omega
    | subattribute own more =>
      simp only [List.cons.injEq] at bytes
      obtain ⟨rfl, rfl, _⟩ := bytes
      rw [own]
      simpa using more
  · rintro ⟨⟨atLeast, atMost⟩, more⟩
    have split : byte :: rest = (byte :: rest).take (vsaLen.toNat - 2) ++
        (vsaTyp :: vsaLen :: byte :: rest).drop vsaLen.toNat := by
      obtain ⟨length, same⟩ : ∃ length, vsaLen.toNat = length + 2 := ⟨vsaLen.toNat - 2, by omega⟩
      rw [same]
      exact (take_append_drop _ _).symm
    rw [split]
    refine .subattribute ?_ more
    rw [length_take]
    simp only [length_cons] at atMost ⊢
    omega

theorem exists_cons_of_length (long : 3 ≤ vsa.length) :
    ∃ vsaTyp vsaLen byte rest, vsa = vsaTyp :: vsaLen :: byte :: rest := by
  match vsa, long with
  | vsaTyp :: vsaLen :: byte :: rest, _ => exact ⟨vsaTyp, vsaLen, byte, rest, rfl⟩

theorem vsaLoop_spec (dictionary : Dictionary) (vendor : Nat → Option DictionaryAttribute)
    (vsa : Bytes) (attributes : AttributeMap) :
    (WellFormedVsa vsa → ∃ decoded, vsaLoop dictionary vendor attributes vsa = .ok decoded) ∧
    (¬ WellFormedVsa vsa →
      vsaLoop dictionary vendor attributes vsa = .error .sliceBoundsOutOfRange) := by
  induction length : vsa.length using Nat.strong_induction_on generalizing vsa attributes with
  | h length ih =>
    by_cases short : vsa.length < 3
    · exact ⟨fun _ => ⟨_, vsaLoop_short short⟩, fun broken => absurd (.tail short) broken⟩
    · obtain ⟨vsaTyp, vsaLen, byte, rest, rfl⟩ := exists_cons_of_length (Nat.not_lt.mp short)
      rw [wellFormedVsa_cons_iff]
      by_cases inside : 2 ≤ vsaLen.toNat ∧
          vsaLen.toNat ≤ (vsaTyp :: vsaLen :: byte :: rest).length
      · obtain ⟨next, stepped⟩ := vsaLoop_step attributes inside
        rw [stepped, and_iff_right inside]
        refine ih _ ?_ _ next rfl
        rw [length_drop]
        omega
      · exact ⟨fun wellFormed => absurd wellFormed.1 inside, fun _ => vsaLoop_panics inside⟩

variable (attributes)

theorem addVendorSpecific_ok (vattrs : Bytes) (safe : SafeVendorSpecific dictionary vattrs) :
    ∃ decoded, addVendorSpecific dictionary attributes vattrs = .ok decoded := by
  unfold addVendorSpecific
  split
  · exact ⟨_, rfl⟩
  next id vsa found =>
    split
    · exact ⟨_, rfl⟩
    next vendor known =>
      exact (vsaLoop_spec dictionary vendor vsa attributes).1 (safe id vsa vendor found known)

theorem addVendorSpecific_error (vattrs : Bytes) (broken : ¬ SafeVendorSpecific dictionary vattrs) :
    addVendorSpecific dictionary attributes vattrs = .error .sliceBoundsOutOfRange := by
  unfold SafeVendorSpecific at broken
  push Not at broken
  obtain ⟨id, vsa, vendor, found, known, broken⟩ := broken
  simp only [addVendorSpecific, found, known]
  exact (vsaLoop_spec dictionary vendor vsa attributes).2 broken

/-- An entry of the packet: what is said of its Vendor-Specific attributes, if
these are what it has. -/
def SafeEntry (dictionary : Dictionary) (entry : UInt8 × List Bytes) : Prop :=
  entry.1 = vendorSpecificType → ∀ vattrs ∈ entry.2, SafeVendorSpecific dictionary vattrs

theorem addAttributes_ok (nonempty : entry.2 ≠ []) (safe : SafeEntry dictionary entry) :
    ∃ added, addAttributes dictionary attributes entry = .ok added := by
  unfold addAttributes
  split
  next special =>
    exact foldlM_ok (fun state vattrs _ => addVendorSpecific_ok state vattrs) (safe special)
      attributes
  · split
    · exact ⟨_, rfl⟩
    next da _ =>
      split
      next none => exact absurd none nonempty
      next attr _ _ => exact ⟨_, rfl⟩

theorem addAttributes_error (broken : ¬ SafeEntry dictionary entry) :
    addAttributes dictionary attributes entry = .error .sliceBoundsOutOfRange := by
  obtain ⟨special, broken⟩ := Classical.not_imp.mp broken
  rw [addAttributes, if_pos special]
  exact foldlM_error (fun state vattrs _ => addVendorSpecific_ok state vattrs)
    (fun state vattrs _ => addVendorSpecific_error state vattrs) broken attributes

variable {attributes}

end Loop

theorem normalizeStation_ne_sliceBounds (dictionary : Dictionary) (attributes : AttributeMap) :
    normalizeStation dictionary attributes ≠ .error .sliceBoundsOutOfRange := by
  unfold normalizeStation
  repeat' split
  all_goals simp

/-- The packet is sliced within bounds exactly if every Vendor-Specific attribute
of a known vendor has well-formed attributes in it. -/
theorem vsa_decoding_safe_iff (dictionary : Dictionary) (packet : Packet) :
    packetToMap dictionary packet ≠ .error .sliceBoundsOutOfRange ↔
      ∀ vattrs, (∃ entry ∈ packet.attributes, entry.1 = vendorSpecificType ∧ vattrs ∈ entry.2) →
        ∀ id vsa vendor, vendorSpecific vattrs = some (id, vsa) →
          dictionary.vendorByNumber id = some vendor → WellFormedVsa vsa := by
  have safe_iff : (∀ vattrs, (∃ entry ∈ packet.attributes,
          entry.1 = vendorSpecificType ∧ vattrs ∈ entry.2) → SafeVendorSpecific dictionary vattrs) ↔
      ∀ entry ∈ packet.attributes, SafeEntry dictionary entry := by
    constructor
    · intro safe entry member special vattrs value
      exact safe vattrs ⟨entry, member, special, value⟩
    · rintro safe vattrs ⟨entry, member, special, value⟩
      exact safe entry member special vattrs value
  have succeeds : ∀ attributes, ∀ entry ∈ packet.attributes, SafeEntry dictionary entry →
      ∃ added, addAttributes dictionary attributes entry = .ok added :=
    fun attributes entry member => addAttributes_ok attributes (packet.nonempty entry member)
  refine Iff.trans ?_ safe_iff.symm
  unfold packetToMap
  constructor
  · intro bounded
    by_contra broken
    rw [foldlM_error succeeds (fun attributes entry _ => addAttributes_error attributes) broken]
      at bounded
    exact bounded rfl
  · intro safe
    obtain ⟨attributes, folded⟩ := foldlM_ok succeeds safe fun _ => none
    rw [folded]
    exact normalizeStation_ne_sliceBounds dictionary attributes

namespace Scenario

def dictionary : Dictionary where
  attributeByOID := fun _ => none
  vendorByNumber := fun id =>
    if id = 9 then some fun typ => if typ = 1 then some ⟨"Cisco-AVPair", .string⟩ else none
    else none
  dateString := fun _ => []
  macString := fun _ => none

def packet (vsaLen : UInt8) : Packet where
  attributes := [(26, [[0, 0, 0, 9, 1, vsaLen, 65]])]
  distinct := by simp
  nonempty := by simp
  bounded := by simp

theorem packetToMap_packet {vsaLen : UInt8} (outside : ¬ (2 ≤ vsaLen.toNat ∧ vsaLen.toNat ≤ 3)) :
    packetToMap dictionary (packet vsaLen) = .error .sliceBoundsOutOfRange := by
  have added : addAttributes dictionary (fun _ => none)
      (26, [[0, 0, 0, 9, 1, vsaLen, 65]]) = .error .sliceBoundsOutOfRange := by
    refine addAttributes_error _ fun safe => ?_
    have wellFormed := safe rfl _ mem_cons_self 9 [1, vsaLen, 65] _ rfl rfl
    exact outside (wellFormedVsa_cons_iff.mp wellFormed).1
  rw [packetToMap, packet, foldlM_cons, added]
  rfl

end Scenario

/-- Lengths that are too short, and one past the end. -/
theorem vsa_decoding_slices_outside :
    packetToMap Scenario.dictionary (Scenario.packet 0) = .error .sliceBoundsOutOfRange ∧
    packetToMap Scenario.dictionary (Scenario.packet 1) = .error .sliceBoundsOutOfRange ∧
    packetToMap Scenario.dictionary (Scenario.packet 200) = .error .sliceBoundsOutOfRange :=
  ⟨Scenario.packetToMap_packet (by decide), Scenario.packetToMap_packet (by decide),
    Scenario.packetToMap_packet (by decide)⟩

end PacketFence.Pfacct
