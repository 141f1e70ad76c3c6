import Ds4.Tp.Mailbox

/-!
# Records arrive in order

What the ring holds while writes are on their way. Of the writes posted so far some number `placed` has
been executed, two for each record; a slot of the worker holds its record from the first of them on, the
sequence word from the second, and both until the record is consumed, because a sender waits for the credit of
the record whose slot it takes. The staged records are kept as long as a write still reads them.
-/

namespace Ds4.Tp

open Lib

/-! ## Slots -/

/-- A slot begins with a record. -/
def Slot.Carries (s : Slot) (record : Bytes) : Prop := s.record.take record.length = record

theorem Slot.carries_copyIn (s : Slot) {record : Bytes} (h : record.length ≤ mboxSeqOff) :
    (s.copyIn record).Carries record := by
  change ((record ++ s.record.drop record.length).take mboxSeqOff).take record.length = record
  rw [List.take_take, Nat.min_eq_left h, List.take_left]

/-- The bytes of a type and a payload. -/
def recordBytes (record : UInt32 × Bytes) : Bytes := frameBytes record.1 record.2

theorem length_recordBytes (record : UInt32 × Bytes) : (recordBytes record).length = 12 + record.2.length := by
  rw [recordBytes, frameBytes, List.length_append, frameHeader.length_put]
  rfl

/-- A record that fits its slot, and is empty if it is the marker. -/
structure Fits (record : UInt32 × Bytes) : Prop where
  length : record.2.length ≤ 4076
  marker : record.1 = mboxFrameTcp → record.2 = []

theorem Fits.recordBytes {record : UInt32 × Bytes} (h : Fits record) :
    (recordBytes record).length ≤ mboxSeqOff := by
  have := h.length
  rw [length_recordBytes, mboxSeqOff]
  omega

theorem Fits.bytes {record : UInt32 × Bytes} (h : Fits record) :
    (UInt32.ofNat record.2.length).toNat = record.2.length :=
  UInt32.toNat_ofNat_of_lt' (Nat.lt_of_le_of_lt h.length (by decide))

theorem Slot.Carries.read {s : Slot} {record : UInt32 × Bytes} (h : s.Carries (recordBytes record)) :
    frameHeader.get (s.record.take frameHeader.width) = ⟨magic, record.1, .ofNat record.2.length⟩ ∧
      slice s.record frameHeader.width record.2.length = record.2 := by
  have hhead := frameHeader.length_put ⟨magic, record.1, .ofNat record.2.length⟩
  have htake : s.record.take (frameHeader.width + record.2.length) = recordBytes record := by
    have hlen : (recordBytes record).length = frameHeader.width + record.2.length := length_recordBytes record
    rw [← hlen]
    exact h
  constructor
  · have hfront : s.record.take frameHeader.width = (recordBytes record).take frameHeader.width := by
      rw [← htake, List.take_take, Nat.min_eq_left (Nat.le_add_right _ _)]
    rw [hfront, recordBytes, frameBytes, List.take_left' hhead, frameHeader.get_put]
  · rw [slice, List.take_drop, htake, recordBytes, frameBytes, List.drop_left' hhead]

/-! ## The ring -/

/-- The `k`-th write of the leader: the even ones place records, the odd ones sequence words. -/
def writeOf (records : Nat → UInt32 × Bytes) (k : Nat) : Write :=
  if k % 2 = 0 then .record (Ring.slot 64 (k / 2)) (recordBytes (records (k / 2))).length
  else .seq (Ring.slot 64 (k / 2))

/-- The channel's ring when `placed` writes of these records have been executed. -/
structure Mailed (p : Pair) (records : Nat → UInt32 × Bytes) (placed : Nat) : Prop where
  fits : ∀ i < p.sent, Fits (records i)
  placed_le : placed ≤ 2 * p.sent
  posted : p.posted = (List.range' placed (2 * p.sent - placed)).map (writeOf records)
  consumed_le : p.consumed ≤ placed / 2
  sent_le : p.sent ≤ p.creditIn + 64
  creditIn_le : p.creditIn ≤ p.creditOut
  creditOut : p.creditOut = p.acked
  acked_le : p.acked ≤ p.consumed
  due : p.consumed < p.acked + mboxAckEvery
  credited : p.credits = 0 → p.creditIn = p.creditOut
  staged : ∀ i, placed / 2 ≤ i → i < p.sent →
    (p.staged (Ring.slot 64 i)).Carries (recordBytes (records i)) ∧ (p.staged (Ring.slot 64 i)).seq = i + 1
  record : ∀ i, p.consumed ≤ i → i < (placed + 1) / 2 →
    (p.ring (Ring.slot 64 i)).Carries (recordBytes (records i))
  seq : ∀ i, p.consumed ≤ i → i < placed / 2 → (p.ring (Ring.slot 64 i)).seq = i + 1
  late : ∀ i, placed / 2 ≤ i → i < placed / 2 + 64 → (p.ring (Ring.slot 64 i)).seq ≤ i

section Ring

variable {p p' : Pair} {records : Nat → UInt32 × Bytes} {placed : Nat}

theorem mailed_start (mailbox : Bool) : Mailed (.start mailbox) records 0 where
  fits _ h := absurd h (Nat.not_lt_zero _)
  placed_le := le_rfl
  posted := rfl
  consumed_le := le_rfl
  sent_le := Nat.zero_le _
  creditIn_le := le_rfl
  creditOut := rfl
  acked_le := le_rfl
  due := Nat.zero_lt_succ 15
  credited _ := rfl
  staged _ _ h := absurd h (Nat.not_lt_zero _)
  record _ _ h := absurd h (Nat.not_lt_zero _)
  seq _ _ h := absurd h (Nat.not_lt_zero _)
  late i _ _ := Nat.zero_le i

theorem Mailed.sent_consumed (h : Mailed p records placed) : p.sent ≤ p.consumed + 64 := by
  have := h.sent_le
  have := h.creditIn_le
  have := h.creditOut
  have := h.acked_le
  omega

theorem tpMboxPut_eq_some {type : UInt32} {payload : Bytes} :
    tpMboxPut p type payload = some p' ↔ payload.length ≤ 4076 ∧ p.sent < p.creditIn + 64 ∧
      p' = { p with
        staged := Function.update p.staged (Ring.slot 64 p.sent)
          { (p.staged (Ring.slot 64 p.sent)).copyIn (recordBytes (type, payload)) with seq := p.sent + 1 }
        posted := p.posted ++
          [.record (Ring.slot 64 p.sent) (recordBytes (type, payload)).length, .seq (Ring.slot 64 p.sent)]
        sent := p.sent + 1 } := by
  have hroom : ¬ (p.sent + 1 > mboxSlots ∧ p.creditIn < p.sent + 1 - mboxSlots) ↔ p.sent < p.creditIn + 64 := by
    rw [mboxSlots]
    omega
  have hlen : ¬ payload.length > mboxSeqOff - frameHeader.width ↔ payload.length ≤ 4076 := Nat.not_lt
  rw [tpMboxPut, Option.ite_none_left_eq_some, Option.ite_none_left_eq_some, hlen, hroom]
  refine and_congr_right fun _ => and_congr_right fun _ => ?_
  exact ⟨fun h => (Option.some.inj h).symm, fun h => congrArg some h.symm⟩

theorem Mailed.put (h : Mailed p records placed) {type : UInt32} {payload : Bytes}
    (hput : tpMboxPut p type payload = some p') (hmarker : type = mboxFrameTcp → payload = [])
    {records' : Nat → UInt32 × Bytes} (hold : ∀ i < p.sent, records' i = records i)
    (hnew : records' p.sent = (type, payload)) : Mailed p' records' placed := by
  obtain ⟨hlen, hroom, rfl⟩ := tpMboxPut_eq_some.1 hput
  have hfits : ∀ i < p.sent + 1, Fits (records' i) := by
    intro i hi
    obtain hlt | rfl := Nat.lt_succ_iff_lt_or_eq.1 hi
    · exact hold i hlt ▸ h.fits i hlt
    · exact hnew ▸ ⟨hlen, hmarker⟩
  have hplaced := h.placed_le
  have hconsumed := h.consumed_le
  exact { h with
    fits := hfits
    placed_le := by
      change placed ≤ 2 * (p.sent + 1)
      omega
    posted := by
      change p.posted ++ _ = (List.range' placed (2 * (p.sent + 1) - placed)).map (writeOf records')
      have hcount : 2 * (p.sent + 1) - placed = 2 * p.sent - placed + 1 + 1 := by omega
      have hsame : (List.range' placed (2 * p.sent - placed)).map (writeOf records) =
          (List.range' placed (2 * p.sent - placed)).map (writeOf records') := by
        refine List.map_congr_left fun k hk => ?_
        obtain ⟨-, hlt⟩ := List.mem_range'_1.1 hk
        rw [writeOf, writeOf, hold (k / 2) (by omega)]
      have hfirst : writeOf records' (2 * p.sent) =
          .record (Ring.slot 64 p.sent) (recordBytes (type, payload)).length := by
        rw [writeOf, if_pos (Nat.mul_mod_right 2 _), Nat.mul_div_cancel_left _ Nat.two_pos, hnew]
      have hsecond : writeOf records' (2 * p.sent + 1) = .seq (Ring.slot 64 p.sent) := by
        rw [writeOf, if_neg (by omega), show (2 * p.sent + 1) / 2 = p.sent by omega]
      rw [h.posted, hsame, hcount, List.range'_concat, List.range'_concat, List.map_append, List.map_append,
        List.append_assoc, Nat.one_mul, Nat.one_mul, Nat.add_sub_cancel' hplaced,
        show placed + (2 * p.sent - placed + 1) = 2 * p.sent + 1 by omega, List.map_singleton, List.map_singleton,
        hfirst, hsecond]
      rfl
    sent_le := hroom
    staged := by
      intro i hi hsent
      obtain hlt | rfl := Nat.lt_succ_iff_lt_or_eq.1 hsent
      · -- The record whose slot is taken was placed long ago.
        have hcredit : p.creditIn ≤ p.consumed := by
          have := h.creditIn_le
          have := h.creditOut
          have := h.acked_le
          omega
        have hne : Ring.slot 64 i ≠ Ring.slot 64 p.sent := Ring.slot_ne hlt (by omega)
        simp only [Function.update_of_ne hne, hold i hlt]
        exact h.staged i hi hlt
      · refine ⟨?_, ?_⟩ <;> simp only [Function.update_self, hnew]
        exact Slot.carries_copyIn _ (hnew ▸ (hfits p.sent hsent).recordBytes)
    record := by
      intro i hi hlt
      rw [hold i (by omega)]
      exact h.record i hi hlt }

theorem Mailed.placed_of_posted (h : Mailed p records placed) (hposted : p.posted = []) : placed = 2 * p.sent := by
  have hlen := congrArg List.length (h.posted.symm.trans hposted)
  rw [List.length_map, List.length_range', List.length_nil] at hlen
  have := h.placed_le
  omega

/-- The writes behind the oldest one. -/
def laterWrites (p : Pair) (records : Nat → UInt32 × Bytes) (placed : Nat) : List Write :=
  (List.range' (placed + 1) (2 * p.sent - (placed + 1))).map (writeOf records)

theorem Mailed.posted_cons (h : Mailed p records placed) (hleft : placed < 2 * p.sent) :
    p.posted = writeOf records placed :: laterWrites p records placed := by
  rw [h.posted, show 2 * p.sent - placed = 2 * p.sent - (placed + 1) + 1 by omega, List.range'_succ, List.map_cons]
  rfl

theorem Mailed.slot_apart (h : Mailed p records placed) (hleft : placed < 2 * p.sent) {i : Nat}
    (hi : p.consumed ≤ i) (hlt : i < placed / 2) : Ring.slot 64 i ≠ Ring.slot 64 (placed / 2) := by
  have := h.sent_consumed
  exact Ring.slot_ne hlt (by omega)

theorem Mailed.place_record (h : Mailed p records placed) (hleft : placed < 2 * p.sent) (heven : placed % 2 = 0) :
    Mailed { p with
      ring := Function.update p.ring (Ring.slot 64 (placed / 2))
        ((p.ring (Ring.slot 64 (placed / 2))).copyIn (recordBytes (records (placed / 2))))
      posted := laterWrites p records placed } records (placed + 1) := by
  have hconsumed := h.consumed_le
  have hhalf : (placed + 1) / 2 = placed / 2 := by omega
  have hapart := fun i => @Mailed.slot_apart _ _ _ h hleft i
  set j := placed / 2 with hj
  have hjsent : j < p.sent := by omega
  refine { h with
    placed_le := hleft
    posted := rfl
    consumed_le := by rwa [hhalf]
    staged := fun i hi => h.staged i (by omega)
    record := fun i hi hlt => ?_
    seq := fun i hi hlt => ?_
    late := fun i hi hlt => ?_ }
  · obtain hlt | rfl := Nat.lt_succ_iff_lt_or_eq.1 (show i < j + 1 by omega)
    · simp only [Function.update_of_ne (hapart i hi hlt)]
      exact h.record i hi (by omega)
    · simp only [Function.update_self]
      exact Slot.carries_copyIn _ (h.fits _ hjsent).recordBytes
  · rw [hhalf] at hlt
    simp only [Function.update_of_ne (hapart i hi hlt)]
    exact h.seq i hi hlt
  · rw [hhalf] at hi hlt
    have hold := h.late i hi hlt
    by_cases hslot : Ring.slot 64 i = Ring.slot 64 j
    · simp only [hslot, Function.update_self] at hold ⊢
      exact hold
    · simp only [Function.update_of_ne hslot]
      exact hold

theorem Mailed.place_seq (h : Mailed p records placed) (hleft : placed < 2 * p.sent) (hodd : placed % 2 ≠ 0) :
    Mailed { p with
      ring := Function.update p.ring (Ring.slot 64 (placed / 2))
        { p.ring (Ring.slot 64 (placed / 2)) with seq := placed / 2 + 1 }
      posted := laterWrites p records placed } records (placed + 1) := by
  have hconsumed := h.consumed_le
  have hhalf : (placed + 1) / 2 = placed / 2 + 1 := by omega
  have hapart := fun i => @Mailed.slot_apart _ _ _ h hleft i
  set j := placed / 2 with hj
  refine { h with
    placed_le := hleft
    posted := rfl
    consumed_le := by
      rw [hhalf]
      exact hconsumed.trans (Nat.le_succ j)
    staged := fun i hi => h.staged i (by omega)
    record := fun i hi hlt => ?_
    seq := fun i hi hlt => ?_
    late := fun i hi hlt => ?_ }
  · have hold := h.record i hi (by omega)
    by_cases hslot : Ring.slot 64 i = Ring.slot 64 j
    · simp only [hslot, Function.update_self] at hold ⊢
      exact hold
    · simp only [Function.update_of_ne hslot]
      exact hold
  · rw [hhalf] at hlt
    obtain hlt | rfl := Nat.lt_succ_iff_lt_or_eq.1 hlt
    · simp only [Function.update_of_ne (hapart i hi hlt)]
      exact h.seq i hi hlt
    · simp only [Function.update_self]
  · rw [hhalf] at hi hlt
    by_cases hslot : Ring.slot 64 i = Ring.slot 64 j
    · simp only [hslot, Function.update_self]
      exact hi
    · -- A slot other than the written one is of a position within the old bound.
      have hne : i ≠ j + 64 := by
        rintro rfl
        exact hslot (Ring.slot_eq_iff.2 (Nat.add_mod_right j 64))
      simp only [Function.update_of_ne hslot]
      exact h.late i (by omega) (by omega)

theorem Mailed.place (h : Mailed p records placed) (hplace : p.place = some p') :
    Mailed p' records (placed + 1) ∧ ∃ ring posted, p' = { p with ring := ring, posted := posted } := by
  rcases Nat.lt_or_ge placed (2 * p.sent) with hleft | hdone
  · obtain ⟨hcarries, hseq⟩ := h.staged (placed / 2) le_rfl (by omega)
    have hwritten : (p.staged (Ring.slot 64 (placed / 2))).record.take (recordBytes (records (placed / 2))).length =
        recordBytes (records (placed / 2)) := hcarries
    have hposted := h.posted_cons hleft
    by_cases heven : placed % 2 = 0
    · rw [writeOf, if_pos heven] at hposted
      rw [Pair.place, hposted] at hplace
      obtain rfl := Option.some.inj hplace
      rw [hwritten]
      exact ⟨h.place_record hleft heven, _, _, rfl⟩
    · rw [writeOf, if_neg heven] at hposted
      rw [Pair.place, hposted] at hplace
      obtain rfl := Option.some.inj hplace
      rw [hseq]
      exact ⟨h.place_seq hleft heven, _, _, rfl⟩
  · have hposted := h.posted
    rw [Nat.sub_eq_zero_of_le hdone] at hposted
    rw [Pair.place, hposted] at hplace
    cases hplace

theorem Mailed.placeCredit (h : Mailed p records placed) (hplace : p.placeCredit = some p') :
    Mailed p' records placed ∧ ∃ creditIn credits, p' = { p with creditIn := creditIn, credits := credits } := by
  obtain ⟨-, heq⟩ := Option.ite_none_left_eq_some.1 hplace
  obtain rfl := Option.some.inj heq
  exact ⟨{ h with
    sent_le := h.sent_le.trans (Nat.add_le_add_right h.creditIn_le 64)
    creditIn_le := le_rfl
    credited := fun _ => rfl }, _, _, rfl⟩

theorem Mailed.get_waits (h : Mailed p records placed) (malloc : Site → Bool) (hopen : p.closed = false)
    (hnext : placed / 2 ≤ p.consumed) : tpMboxGet malloc p = none := by
  have hlate := h.late p.consumed hnext (Nat.lt_of_le_of_lt h.consumed_le (by omega))
  have hwait : (p.ring (Ring.slot 64 (p.consumed + 1 - 1))).seq < p.consumed + 1 := Nat.lt_succ_of_le hlate
  rw [tpMboxGet, if_pos hwait, hopen]
  rfl

theorem Mailed.get (h : Mailed p records placed) {malloc : Site → Bool} (hm : malloc .payload = true)
    (hnext : p.consumed < placed / 2) : tpMboxGet malloc p = some (p.consume,
      some (⟨magic, (records p.consumed).1, .ofNat (records p.consumed).2.length⟩, (records p.consumed).2)) := by
  have hfits := h.fits p.consumed (by have := h.placed_le; omega)
  have hseq := h.seq p.consumed le_rfl hnext
  obtain ⟨hhead, hpayload⟩ := (h.record p.consumed le_rfl (by omega)).read
  have hbytes := hfits.bytes
  have hgood : ¬ (magic ≠ magic ∨ (UInt32.ofNat (records p.consumed).2.length).toNat > mboxSeqOff - frameHeader.width ∨
      ((records p.consumed).1 = mboxFrameTcp ∧ UInt32.ofNat (records p.consumed).2.length ≠ 0)) := by
    rintro (hne | hlong | ⟨hmarker, hne⟩)
    · exact hne rfl
    · rw [hbytes] at hlong
      exact absurd hfits.length (Nat.not_le.2 hlong)
    · rw [hfits.marker hmarker] at hne
      exact hne rfl
  rw [tpMboxGet]
  simp only [Nat.add_sub_cancel, hseq, hhead, lt_irrefl, ne_eq, not_true, if_false, hbytes, hpayload] at hgood ⊢
  rw [if_neg hgood]
  simp only [hm, not_true, and_false, if_false]

theorem Mailed.consume (h : Mailed p records placed) (hnext : p.consumed < placed / 2) :
    Mailed p.consume records placed := by
  have hacked := h.acked_le
  have hdue := h.due
  have hin := h.creditIn_le
  have hout := h.creditOut
  simp only [Pair.consume]
  split
  · exact { h with
      consumed_le := hnext
      creditIn_le := by
        change p.creditIn ≤ p.consumed + 1
        omega
      creditOut := rfl
      acked_le := le_rfl
      due := Nat.lt_add_of_pos_right (by decide)
      credited := fun hzero => absurd hzero (Nat.succ_ne_zero _)
      record := fun i hi => h.record i (Nat.le_of_succ_le hi)
      seq := fun i hi => h.seq i (Nat.le_of_succ_le hi) }
  · exact { h with
      consumed_le := hnext
      acked_le := hacked.trans (Nat.le_succ _)
      due := by
        change p.consumed + 1 < p.acked + mboxAckEvery
        omega
      record := fun i hi => h.record i (Nat.le_of_succ_le hi)
      seq := fun i hi => h.seq i (Nat.le_of_succ_le hi) }

theorem Mailed.room (h : Mailed p records placed) (hall : p.consumed = p.sent) (hcredits : p.credits = 0) :
    p.sent < p.creditIn + 64 := by
  have := h.credited hcredits
  have := h.creditOut
  have := h.due
  rw [mboxAckEvery] at this
  omega

end Ring

end Ds4.Tp
