import PacketFence.Foundations.Escaping
import PacketFence.Foundations.IndexedList
import PacketFence.Foundations.Strconv
import Mathlib.Algebra.BigOperators.Group.List.Basic
import Mathlib.Data.List.Induction

/-!
# NetFlow packets

The flows of a packet are added up by address. The records stand in the order in
which their addresses first occur, and a map from the text of an address to the
index of its record is kept beside them.
-/

namespace PacketFence.Pfacct

open Foundations List Nat

/-- An IPv4 address, as the four bytes of a `net.IP`. -/
structure Ipv4 where
  first : BitVec 8
  second : BitVec 8
  third : BitVec 8
  fourth : BitVec 8
  deriving DecidableEq

def Ipv4.string (ip : Ipv4) : String :=
  ip.first.toNat.repr ++ "." ++ ip.second.toNat.repr ++ "." ++ ip.third.toNat.repr ++ "." ++
    ip.fourth.toNat.repr

structure Flow where
  srcIP : Ipv4
  dstIP : Ipv4
  dOctets : BitVec 32

structure Header where
  unixSecs : BitVec 32
  unixNsecs : BitVec 32

structure NetFlowBandwidthAccountingRec where
  ip : String
  uniqueSession : BitVec 64
  /-- in nanoseconds since the year 1 -/
  timeBucket : Int
  inBytes : BitVec 64
  outBytes : BitVec 64
  deriving DecidableEq

/-- The part of the server that decides about flows. -/
structure PfAcct where
  allNetworks : Bool
  /-- `Contains` of each of the networks -/
  allowedNetworks : List (Ipv4 → Bool)
  /-- in nanoseconds -/
  timeDuration : Int

variable (pfAcct : PfAcct)

def PfAcct.ipAddressAllowed (ip : Ipv4) : Bool :=
  pfAcct.allNetworks || pfAcct.allowedNetworks.any fun contains => contains ip

/-- `time.Unix`, in nanoseconds since the year 1 -/
def Header.time (header : Header) : Int :=
  (62135596800 + header.unixSecs.toNat) * 1000000000 + header.unixNsecs.toNat

/-- `time.Truncate` -/
def truncate (time duration : Int) : Int :=
  if duration ≤ 0 then time else time - time % duration

def uniqueSession (ip : Ipv4) : BitVec 64 :=
  0xFFFFFFFF#64 <<< 32 ||| ip.first.setWidth 64 <<< 24 ||| ip.second.setWidth 64 <<< 16 |||
    ip.third.setWidth 64 <<< 8 ||| ip.fourth.setWidth 64

def freshRec (ip : Ipv4) (timeBucket : Int) : NetFlowBandwidthAccountingRec where
  ip := ip.string
  uniqueSession := uniqueSession ip
  timeBucket := timeBucket
  inBytes := 0
  outBytes := 0

abbrev Recs := IndexedList String NetFlowBandwidthAccountingRec

/-- The index of an address, which is `-1` if it is not allowed. -/
def PfAcct.indexOf (timeBucket : Int) (recs : Recs) (ip : Ipv4) : Recs × Int :=
  if pfAcct.ipAddressAllowed ip then
    let located := recs.locate ip.string (freshRec ip timeBucket)
    (located.1, located.2)
  else
    (recs, -1)

/-- An update of the record at an index that may be `-1`; the index may be out of range. -/
def update? (recs : Recs) (index : Int)
    (change : NetFlowBandwidthAccountingRec → NetFlowBandwidthAccountingRec) : Option Recs :=
  if index ≠ -1 then recs.modify? index.toNat change else some recs

def NetFlowBandwidthAccountingRec.addOut (layer3Bytes : BitVec 64)
    (entry : NetFlowBandwidthAccountingRec) : NetFlowBandwidthAccountingRec :=
  { entry with outBytes := entry.outBytes + layer3Bytes }

def NetFlowBandwidthAccountingRec.addIn (layer3Bytes : BitVec 64)
    (entry : NetFlowBandwidthAccountingRec) : NetFlowBandwidthAccountingRec :=
  { entry with inBytes := entry.inBytes + layer3Bytes }

def PfAcct.addFlow? (timeBucket : Int) (recs : Recs) (flow : Flow) : Option Recs :=
  let src := pfAcct.indexOf timeBucket recs flow.srcIP
  let dst := pfAcct.indexOf timeBucket src.1 flow.dstIP
  let layer3Bytes := flow.dOctets.setWidth 64
  (update? dst.1 src.2 (.addOut layer3Bytes)).bind fun recs =>
    update? recs dst.2 (.addIn layer3Bytes)

/-- The records of a packet; there are none if an index is out of range. -/
def PfAcct.netFlowV5ToBandwidthAccounting (header : Header)
    (flows : List Flow) : Option (List NetFlowBandwidthAccountingRec) :=
  (flows.foldlM (pfAcct.addFlow? (truncate header.time pfAcct.timeDuration))
    IndexedList.empty).map (·.items)

def PfAcct.participants (flows : List Flow) : List Ipv4 :=
  ((flows.flatMap fun flow => [flow.srcIP, flow.dstIP]).filter pfAcct.ipAddressAllowed).eraseDups

def sentBytes (flows : List Flow) (ip : Ipv4) : Nat :=
  ((flows.filter (·.srcIP = ip)).map (·.dOctets.toNat)).sum

def receivedBytes (flows : List Flow) (ip : Ipv4) : Nat :=
  ((flows.filter (·.dstIP = ip)).map (·.dOctets.toNat)).sum

/-- The record of an address, as a sum over the flows. -/
def groupedRec (timeBucket : Int) (flows : List Flow) (ip : Ipv4) :
    NetFlowBandwidthAccountingRec where
  ip := ip.string
  uniqueSession := uniqueSession ip
  timeBucket := timeBucket
  inBytes := BitVec.ofNat 64 (receivedBytes flows ip)
  outBytes := BitVec.ofNat 64 (sentBytes flows ip)

theorem dot_notMem_toDigits (number : Nat) : '.' ∉ toDigits 10 number :=
  fun member => absurd (isDigit_toDigits number '.' member) (by decide)

theorem toDigits_injective : Function.Injective (toDigits 10) := by
  intro first second same
  have values := congrArg (fun digits => ofDigitChars 10 digits 0) same
  simpa only [ofDigitChars_ten_toDigits] using values

theorem Ipv4.string_injective : Function.Injective Ipv4.string := by
  rintro ⟨a, b, c, d⟩ ⟨a', b', c', d'⟩ same
  have dot : ".".toList = ['.'] := rfl
  have texts := congrArg String.toList same
  simp only [Ipv4.string, String.toList_append, toList_repr, append_assoc, dot,
    singleton_append] at texts
  obtain ⟨first, texts⟩ :=
    append_separator_inj (dot_notMem_toDigits _) (dot_notMem_toDigits _) texts
  obtain ⟨second, texts⟩ :=
    append_separator_inj (dot_notMem_toDigits _) (dot_notMem_toDigits _) texts
  obtain ⟨third, fourth⟩ :=
    append_separator_inj (dot_notMem_toDigits _) (dot_notMem_toDigits _) texts
  rw [BitVec.eq_of_toNat_eq (toDigits_injective first),
    BitVec.eq_of_toNat_eq (toDigits_injective second),
    BitVec.eq_of_toNat_eq (toDigits_injective third),
    BitVec.eq_of_toNat_eq (toDigits_injective fourth)]

theorem mul_two_pow_or {low bits : Nat} (high : Nat) (bound : low < 2 ^ bits) :
    high * 2 ^ bits ||| low = high * 2 ^ bits + low := by
  rw [mul_comm, two_pow_add_eq_or_of_lt bound]

@[simp] theorem toNat_setWidth_byte (byte : BitVec 8) : (byte.setWidth 64).toNat = byte.toNat := by
  rw [BitVec.toNat_setWidth]
  omega

theorem toNat_byte_shiftLeft (byte : BitVec 8) {bits : Nat} (room : bits ≤ 56) :
    (byte.setWidth 64 <<< bits).toNat = byte.toNat * 2 ^ bits := by
  rw [BitVec.toNat_shiftLeft, toNat_setWidth_byte, shiftLeft_eq]
  apply mod_eq_of_lt
  calc
    byte.toNat * 2 ^ bits < 2 ^ 8 * 2 ^ bits :=
      Nat.mul_lt_mul_of_pos_right byte.isLt (Nat.two_pow_pos bits)
    _ = 2 ^ (8 + bits) := (pow_add 2 8 bits).symm
    _ ≤ 2 ^ 64 := Nat.pow_le_pow_right (by decide) (by omega)

theorem toNat_uniqueSession (ip : Ipv4) :
    (uniqueSession ip).toNat =
      0xFFFFFFFF * 2 ^ 32 + ip.first.toNat * 2 ^ 24 + ip.second.toNat * 2 ^ 16 +
        ip.third.toNat * 2 ^ 8 + ip.fourth.toNat := by
  have top : (0xFFFFFFFF#64 <<< 32).toNat = 0xFFFFFFFF * 2 ^ 32 := by decide
  rw [uniqueSession, BitVec.toNat_or, BitVec.toNat_or, BitVec.toNat_or, BitVec.toNat_or, top,
    toNat_setWidth_byte, toNat_byte_shiftLeft _ (by decide), toNat_byte_shiftLeft _ (by decide),
    toNat_byte_shiftLeft _ (by decide), mul_two_pow_or _ (by omega)]
  rw [show 0xFFFFFFFF * 2 ^ 32 + ip.first.toNat * 2 ^ 24 =
      (0xFFFFFFFF * 2 ^ 8 + ip.first.toNat) * 2 ^ 24 by omega, mul_two_pow_or _ (by omega)]
  rw [show (0xFFFFFFFF * 2 ^ 8 + ip.first.toNat) * 2 ^ 24 + ip.second.toNat * 2 ^ 16 =
      ((0xFFFFFFFF * 2 ^ 8 + ip.first.toNat) * 2 ^ 8 + ip.second.toNat) * 2 ^ 16 by omega,
    mul_two_pow_or _ (by omega)]
  rw [show ((0xFFFFFFFF * 2 ^ 8 + ip.first.toNat) * 2 ^ 8 + ip.second.toNat) * 2 ^ 16 +
        ip.third.toNat * 2 ^ 8 =
      (((0xFFFFFFFF * 2 ^ 8 + ip.first.toNat) * 2 ^ 8 + ip.second.toNat) * 2 ^ 8 +
        ip.third.toNat) * 2 ^ 8 by omega, mul_two_pow_or _ (by omega)]

theorem uniqueSession_injective : Function.Injective uniqueSession := by
  rintro ⟨a, b, c, d⟩ ⟨a', b', c', d'⟩ same
  have values := congrArg BitVec.toNat same
  simp only [toNat_uniqueSession] at values
  simp only [Ipv4.mk.injEq, ← BitVec.toNat_inj]
  omega

variable {pfAcct : PfAcct} {timeBucket : Int} {recs : Recs} {keys : List Ipv4}
  {item : Ipv4 → NetFlowBandwidthAccountingRec} {ip : Ipv4}

def PfAcct.including (pfAcct : PfAcct) (ip : Ipv4) (keys : List Ipv4) : List Ipv4 :=
  if pfAcct.ipAddressAllowed ip then insertLast ip keys else keys

variable {other : Ipv4} {allowed : Bool} {flows : List Flow}

theorem mem_including : other ∈ pfAcct.including ip keys ↔
      other ∈ keys ∨ other = ip ∧ pfAcct.ipAddressAllowed ip = true := by
  unfold PfAcct.including
  split
  next allowed => simp [allowed]
  next refused => simp [refused]

theorem idxOf_including (member : other ∈ keys) :
    (pfAcct.including ip keys).idxOf other = keys.idxOf other := by
  unfold PfAcct.including insertLast
  split
  · split
    · rfl
    · exact idxOf_append_of_mem member
  · rfl

theorem participants_concat (flows : List Flow) (flow : Flow) :
    pfAcct.participants (flows ++ [flow]) =
      pfAcct.including flow.dstIP (pfAcct.including flow.srcIP (pfAcct.participants flows)) := by
  have admitted : ∀ (ips : List Ipv4) (ip : Ipv4),
      ((ips ++ [ip]).filter pfAcct.ipAddressAllowed).eraseDups =
        pfAcct.including ip (ips.filter pfAcct.ipAddressAllowed).eraseDups := by
    intro ips ip
    rw [PfAcct.including, filter_append]
    split
    next allowed => rw [filter_singleton, allowed, ← eraseDups_concat]; rfl
    next refused => rw [filter_singleton, Bool.eq_false_of_not_eq_true refused]; simp
  unfold PfAcct.participants
  rw [flatMap_append, flatMap_singleton, ← admitted, ← admitted, append_assoc]
  rfl

theorem indexOf_spec (pfAcct : PfAcct) (ip : Ipv4)
    (listed : recs.Lists Ipv4.string keys item)
    (fresh : pfAcct.ipAddressAllowed ip = true → ip ∉ keys → item ip = freshRec ip timeBucket) :
    (pfAcct.indexOf timeBucket recs ip).1.Lists Ipv4.string (pfAcct.including ip keys) item ∧
      (pfAcct.indexOf timeBucket recs ip).2 =
        if pfAcct.ipAddressAllowed ip then ((pfAcct.including ip keys).idxOf ip : Int) else -1 := by
  unfold PfAcct.indexOf PfAcct.including
  split
  next allowed =>
    obtain ⟨located, index⟩ := listed.locate Ipv4.string_injective (fresh allowed)
    exact ⟨located, congrArg _ index⟩
  · exact ⟨listed, rfl⟩

theorem update?_spec (listed : recs.Lists Ipv4.string keys item) {index : Int}
    (found : index = if allowed then (keys.idxOf ip : Int) else -1)
    (present : allowed = true → ip ∈ keys)
    (change : NetFlowBandwidthAccountingRec → NetFlowBandwidthAccountingRec) :
    ∃ changed, update? recs index change = some changed ∧
      changed.Lists Ipv4.string keys
        (if allowed then Function.update item ip (change (item ip)) else item) := by
  subst found
  cases allowed with
  | true =>
    obtain ⟨changed, modified, relisted⟩ := listed.modify? (present rfl) change
    refine ⟨changed, ?_, relisted⟩
    rw [update?, if_pos rfl, if_pos (by omega), Int.toNat_natCast, modified]
  | false => exact ⟨recs, rfl, listed⟩

theorem update_if_apply {key : Ipv4}
    {change : NetFlowBandwidthAccountingRec → NetFlowBandwidthAccountingRec}
    (listed : ip = key → allowed = true) :
    (if allowed then Function.update item ip (change (item ip)) else item) key =
      (if ip = key then change else id) (item key) := by
  by_cases same : ip = key
  · subst same
    rw [if_pos (listed rfl), Function.update_self, if_pos rfl]
  · split
    · exact Function.update_of_ne (Ne.symm same) _ _
    · rfl

theorem groupedRec_of_notMem (allowed : pfAcct.ipAddressAllowed ip = true)
    (absent : ip ∉ pfAcct.participants flows) :
    groupedRec timeBucket flows ip = freshRec ip timeBucket := by
  have unseen : ∀ flow ∈ flows, flow.srcIP ≠ ip ∧ flow.dstIP ≠ ip := by
    intro flow member
    constructor <;> rintro rfl <;>
      exact absent (mem_eraseDups.mpr (mem_filter.mpr
        ⟨mem_flatMap.mpr ⟨flow, member, by simp⟩, allowed⟩))
  have sent : flows.filter (·.srcIP = ip) = [] :=
    filter_eq_nil_iff.mpr fun flow member => by simpa using (unseen flow member).1
  have received : flows.filter (·.dstIP = ip) = [] :=
    filter_eq_nil_iff.mpr fun flow member => by simpa using (unseen flow member).2
  simp [groupedRec, freshRec, sentBytes, receivedBytes, sent, received]

theorem groupedRec_concat (flows : List Flow) (flow : Flow) :
    groupedRec timeBucket (flows ++ [flow]) ip =
      (if flow.dstIP = ip then
        NetFlowBandwidthAccountingRec.addIn (flow.dOctets.setWidth 64) else id)
        ((if flow.srcIP = ip then
          NetFlowBandwidthAccountingRec.addOut (flow.dOctets.setWidth 64) else id)
          (groupedRec timeBucket flows ip)) := by
  by_cases src : flow.srcIP = ip <;> by_cases dst : flow.dstIP = ip <;>
    simp [groupedRec, sentBytes, receivedBytes, NetFlowBandwidthAccountingRec.addIn,
      NetFlowBandwidthAccountingRec.addOut, src, dst, BitVec.ofNat_add]

theorem allowed_of_mem_participants (member : ip ∈ pfAcct.participants flows) :
    pfAcct.ipAddressAllowed ip = true := of_mem_filter (mem_eraseDups.mp member)

theorem addFlow?_spec
    (listed : recs.Lists Ipv4.string (pfAcct.participants flows) (groupedRec timeBucket flows))
    (flow : Flow) :
    ∃ added, pfAcct.addFlow? timeBucket recs flow = some added ∧
      added.Lists Ipv4.string (pfAcct.participants (flows ++ [flow]))
        (groupedRec timeBucket (flows ++ [flow])) := by
  obtain ⟨afterSrc, srcIndex⟩ := indexOf_spec pfAcct flow.srcIP listed groupedRec_of_notMem
  obtain ⟨afterDst, dstIndex⟩ := indexOf_spec pfAcct flow.dstIP afterSrc
    fun allowed absent => groupedRec_of_notMem allowed fun member =>
      absent (mem_including.mpr (Or.inl member))
  have srcPresent : pfAcct.ipAddressAllowed flow.srcIP = true →
      flow.srcIP ∈ pfAcct.including flow.srcIP (pfAcct.participants flows) :=
    fun allowed => mem_including.mpr (Or.inr ⟨rfl, allowed⟩)
  -- the index of the source still holds after the destination is appended
  have srcKept : (pfAcct.indexOf timeBucket recs flow.srcIP).2 =
      if pfAcct.ipAddressAllowed flow.srcIP then
        ((pfAcct.including flow.dstIP
          (pfAcct.including flow.srcIP (pfAcct.participants flows))).idxOf flow.srcIP : Int)
      else -1 := by
    rw [srcIndex]
    split
    next allowed => rw [idxOf_including (srcPresent allowed)]
    · rfl
  obtain ⟨sent, sentEq, sentListed⟩ := update?_spec afterDst srcKept
    (fun allowed => mem_including.mpr (Or.inl (srcPresent allowed)))
    (.addOut (flow.dOctets.setWidth 64))
  obtain ⟨received, receivedEq, receivedListed⟩ := update?_spec sentListed dstIndex
    (fun allowed => mem_including.mpr (Or.inr ⟨rfl, allowed⟩)) (.addIn (flow.dOctets.setWidth 64))
  refine ⟨received, ?_, ?_⟩
  · unfold PfAcct.addFlow?
    dsimp only
    rw [sentEq, Option.bind_some, receivedEq]
  · rw [participants_concat]
    refine receivedListed.congr fun key member => ?_
    have allowed : pfAcct.ipAddressAllowed key = true := by
      rw [← participants_concat] at member
      exact allowed_of_mem_participants member
    rw [groupedRec_concat, update_if_apply fun same => same ▸ allowed,
      update_if_apply fun same => same ▸ allowed]

theorem foldlM_addFlow?_spec (pfAcct : PfAcct) (timeBucket : Int) (flows : List Flow) :
    ∃ recs, flows.foldlM (pfAcct.addFlow? timeBucket) IndexedList.empty = some recs ∧
      recs.Lists Ipv4.string (pfAcct.participants flows) (groupedRec timeBucket flows) := by
  induction flows using List.reverseRecOn with
  | nil => exact ⟨_, rfl, .empty _ _⟩
  | append_singleton flows flow ih =>
    obtain ⟨recs, folded, listed⟩ := ih
    obtain ⟨added, step, relisted⟩ := addFlow?_spec listed flow
    refine ⟨added, ?_, relisted⟩
    rw [foldlM_append, folded]
    simpa using step

/-- The records of a packet are one for each allowed address that occurs in it, in
the order of first occurrence, with the sums of the flows it sends and receives;
records of one session are records of one address. -/
theorem netflow_records_are_grouped_flows (pfAcct : PfAcct) (header : Header) (flows : List Flow) :
    pfAcct.netFlowV5ToBandwidthAccounting header flows = some ((pfAcct.participants flows).map
        (groupedRec (truncate header.time pfAcct.timeDuration) flows)) ∧
    (pfAcct.participants flows).Nodup ∧
    (∀ ip, ip ∈ pfAcct.participants flows ↔ pfAcct.ipAddressAllowed ip = true ∧
      ∃ flow ∈ flows, flow.srcIP = ip ∨ flow.dstIP = ip) ∧
    ∀ first ∈ pfAcct.participants flows, ∀ second ∈ pfAcct.participants flows,
      uniqueSession first = uniqueSession second → first = second := by
  obtain ⟨recs, folded, listed⟩ := foldlM_addFlow?_spec pfAcct
    (truncate header.time pfAcct.timeDuration) flows
  refine ⟨?_, listed.distinct, fun ip => ?_, fun first _ second _ same =>
    uniqueSession_injective same⟩
  · rw [PfAcct.netFlowV5ToBandwidthAccounting, folded, Option.map_some, listed.items_eq]
  · rw [PfAcct.participants, mem_eraseDups, mem_filter, mem_flatMap, and_comm]
    simp [@eq_comm _ ip]

/-- A flow from an address to itself counts in both directions. -/
example : (PfAcct.mk true [] 0).netFlowV5ToBandwidthAccounting ⟨0, 0⟩
    [⟨⟨10, 0, 0, 1⟩, ⟨10, 0, 0, 1⟩, 7⟩] =
      some [⟨"10.0.0.1", 0xFFFFFFFF0A000001, 62135596800000000000, 7, 7⟩] := by
  decide

end PacketFence.Pfacct
