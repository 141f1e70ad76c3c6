import Ds4.Kvstore.Cache

/-!
# The sizes of the entries

What a file counts in the index depends on its header only (`Counted`, `parseHeader_open`), so the
sum of the sizes of all indexed files, `indexedBytes`, is a sum over the directory. Touching a file
keeps its size, and a file with a rewritten trailer ends with that trailer.
-/

namespace Ds4.Kvstore

open Ds4.Lib

/-! ## What a file counts -/

/-- The length of the header in front of the text length. -/
def headerLength (c : Bytes) : Nat := if c.getD 3 0 = 1 then 48 else 80

/-- The text length in a file. -/
def fileTextBytes (c : Bytes) : Nat := (get32 (c.drop (headerLength c))).toNat

/-- The payload size in a file. -/
def filePayloadBytes (c : Bytes) : Nat := (get64 (c.drop 40)).toNat

/-- The headers that are parsed. -/
def ParsesHeader (c : Bytes) : Prop :=
  headerLength c + 4 ≤ c.length ∧ c.take 3 = [75, 86, 67] ∧ (c.getD 3 0 = 1 ∨ c.getD 3 0 = 2) ∧
    get32 (c.drop 8) ≠ 0 ∧ quantBitsSupported (c.getD 4 0) = true

instance (c : Bytes) : Decidable (ParsesHeader c) := by unfold ParsesHeader; infer_instance

theorem getD_take {c : Bytes} {i n : Nat} (h : i < n) : (c.take n).getD i 0 = c.getD i 0 := by
  simp [List.getD_eq_getElem?_getD, List.getElem?_take_of_lt h]

theorem get32_take (l : Bytes) {n : Nat} (h : 4 ≤ n) : get32 (l.take n) = get32 l := by
  obtain ⟨m, rfl⟩ : ∃ m, n = m + 4 := ⟨n - 4, by omega⟩
  rcases l with _ | ⟨a, _ | ⟨b, _ | ⟨c, _ | ⟨d, l⟩⟩⟩⟩ <;> rfl

theorem get64_take (l : Bytes) {n : Nat} (h : 8 ≤ n) : get64 (l.take n) = get64 l := by
  rw [get64, get64, List.take_take, Nat.min_eq_left h]

theorem read_at (c : Bytes) (pos n : Nat) (h : pos + n ≤ c.length) :
    (File.read ⟨c, pos⟩ n) = (part c pos n, ⟨c, pos + n⟩) := by
  have : ((c.drop pos).take n).length = n := by
    rw [List.length_take, List.length_drop]
    omega
  simp [File.read, File.rest, part, this]

theorem read_short (c : Bytes) (pos n : Nat) (h : c.length < pos + n) (hn : 0 < n) :
    (File.read ⟨c, pos⟩ n).1.length ≠ n := by
  simp only [File.read, File.rest, List.length_take, List.length_drop]
  omega

theorem parseHeader_open (g : Process) (c : Bytes) :
    parseHeader g (File.open' c) =
      if ParsesHeader c then
        some (headerEntry g (c.take (headerLength c)) (get32 (c.drop (headerLength c))),
          get32 (c.drop (headerLength c)), ⟨c, headerLength c + 4⟩)
      else none := by
  unfold parseHeader File.open'
  simp only
  by_cases h4 : 0 + 4 ≤ c.length
  swap
  · rw [if_pos (read_short c 0 4 (by omega) (by omega)),
      if_neg (by unfold ParsesHeader; omega)]
  rw [read_at c 0 4 h4, if_neg (by simp [part]; omega)]
  have htake : (part c 0 4).take 3 = c.take 3 := by simp [part, List.take_take]
  have hget : (part c 0 4).getD 3 0 = c.getD 3 0 := by
    rw [part, List.drop_zero, getD_take (by omega)]
  have hfold : (if c.getD 3 0 = 1 then 48 else 80) = headerLength c := rfl
  simp only [htake, hget, hfold]
  by_cases hmagic : c.take 3 = [75, 86, 67]
  swap
  · rw [if_pos hmagic, if_neg fun h => hmagic h.2.1]
  rw [if_neg (by simpa using hmagic)]
  by_cases hversion : c.getD 3 0 = 1 ∨ c.getD 3 0 = 2
  swap
  · rw [if_pos (by simpa [not_or] using hversion), if_neg fun h => hversion h.2.2.1]
  rw [if_neg (by tauto)]
  have hlen : 48 ≤ headerLength c := by unfold headerLength; split <;> omega
  by_cases hh : headerLength c ≤ c.length
  swap
  · rw [if_pos (read_short c (0 + 4) _ (by omega) (by omega)),
      if_neg (by unfold ParsesHeader; omega)]
  rw [read_at c (0 + 4) _ (by omega), if_neg (by rw [part_length]; omega)]
  have hwhole : part c 0 4 ++ part c (0 + 4) (headerLength c - 4) = c.take (headerLength c) := by
    rw [part, part, List.drop_zero, Nat.zero_add, ← List.take_add]
    congr 1
    omega
  have hpos : 0 + 4 + (headerLength c - 4) = headerLength c := by omega
  simp only [hwhole, hpos]
  by_cases htb : headerLength c + 4 ≤ c.length
  swap
  · rw [if_pos (read_short c _ _ (by omega) (by omega)), if_neg (by unfold ParsesHeader; omega)]
  rw [read_at c _ _ htb, if_neg (by rw [part_length]; omega)]
  have htext : get32 (part c (headerLength c) 4) = get32 (c.drop (headerLength c)) :=
    get32_take _ (by omega)
  have htokens : (headerEntry g (c.take (headerLength c)) (get32 (c.drop (headerLength c)))).tokens =
      get32 (c.drop 8) := by
    simp only [headerEntry]
    rw [List.drop_take, get32_take _ (by omega)]
  have hquant : (headerEntry g (c.take (headerLength c))
      (get32 (c.drop (headerLength c)))).quantBits = c.getD 4 0 := by
    simp only [headerEntry]
    rw [getD_take (by omega)]
  simp only [htext, htokens, hquant]
  simp only [ParsesHeader, htb, hmagic, hversion, true_and]

/-- The files that are indexed. -/
def Counted (c : Bytes) : Prop :=
  ParsesHeader c ∧ headerLength c + 4 + fileTextBytes c + filePayloadBytes c ≤ c.length ∧
    headerLength c + 4 + fileTextBytes c + filePayloadBytes c ≤ uint64Max

instance (c : Bytes) : Decidable (Counted c) := by unfold Counted; infer_instance

/-- The bytes that a file counts: its size, when it is indexed. -/
def countedBytes (c : Bytes) : Nat := if Counted c then c.length else 0

theorem headerEntry_head {g : Process} {c : Bytes} (tb : UInt32) :
    (headerEntry g (c.take (headerLength c)) tb).version = c.getD 3 0 ∧
      (headerEntry g (c.take (headerLength c)) tb).payloadBytes = get64 (c.drop 40) := by
  have hlen : 48 ≤ headerLength c := by unfold headerLength; split <;> omega
  simp only [headerEntry]
  rw [getD_take (by omega), List.drop_take, get64_take _ (by omega)]
  exact ⟨rfl, rfl⟩

theorem fixedBytes_version (c : Bytes) : fixedBytes (c.getD 3 0) = headerLength c + 4 := by
  unfold fixedBytes headerLength
  split <;> rfl

theorem readEntry_kept (g : Process) (path c sha : Bytes) :
    readEntry g path c sha true =
      if Counted c then
        some { headerEntry g (c.take (headerLength c)) (get32 (c.drop (headerLength c))) with
          sha := sha, path := path, fileSize := c.length }
      else none := by
  unfold readEntry
  rw [parseHeader_open]
  by_cases hp : ParsesHeader c
  swap
  · simp only [if_neg hp, ite_self]
    rw [if_neg fun h => hp h.1]
  have hlen : 48 ≤ headerLength c := by unfold headerLength; split <;> omega
  rw [if_neg (by have := hp.1; omega)]
  simp only [if_pos hp, Bool.true_eq_false, and_false, if_false]
  obtain ⟨hversion, hpayload⟩ := headerEntry_head (g := g) (c := c) (get32 (c.drop (headerLength c)))
  rw [hversion, hpayload, fixedBytes_version]
  have hc : Counted c ↔ ¬ (uint64Max - (headerLength c + 4) < fileTextBytes c ∨
      uint64Max - (headerLength c + 4) - fileTextBytes c < filePayloadBytes c) ∧
      ¬ c.length < headerLength c + 4 + fileTextBytes c + filePayloadBytes c := by
    have : headerLength c ≤ 80 := by unfold headerLength; split <;> omega
    have : 84 ≤ uint64Max := by decide
    simp only [Counted, hp, true_and]
    omega
  simp only [fileTextBytes, filePayloadBytes] at hc
  split_ifs <;> tauto

/-! ## The sum of the sizes -/

/-- The bytes that a file of the directory counts. -/
def fileBytes (x : Bytes × Bytes) : Nat := if (shaHexName x.1).isSome then countedBytes x.2 else 0

/-- The sum of the sizes of all indexed files. -/
def indexedBytes (g : Process) (dir : Dir) : Nat := ((refresh g dir).map (·.fileSize)).sum

theorem indexedBytes_eq (g : Process) (dir : Dir) :
    indexedBytes g dir = (dir.files.map fileBytes).sum := by
  unfold indexedBytes refresh
  induction dir.files with
  | nil => rfl
  | cons x files ih =>
    rw [List.map_cons, List.sum_cons, ← ih, fileBytes, countedBytes, List.filterMap_cons]
    cases hname : shaHexName x.1 with
    | none => simp
    | some sha =>
      simp only [Option.bind_some, readEntry_kept, Option.isSome_some, if_true]
      split_ifs <;> simp

theorem indexedBytes_process (g g' : Process) (dir : Dir) :
    indexedBytes g dir = indexedBytes g' dir := by
  rw [indexedBytes_eq, indexedBytes_eq]

theorem fileBytes_le (x : Bytes × Bytes) : fileBytes x ≤ x.2.length := by
  unfold fileBytes countedBytes
  split_ifs <;> omega

theorem content_split {dir : Dir} {name content : Bytes} (h : dir.content name = some content) :
    ∃ l₁ l₂, dir.files = l₁ ++ (name, content) :: l₂ ∧ (∀ x ∈ l₁, x.1 ≠ name) ∧
      ∀ x ∈ l₂, x.1 ≠ name := by
  obtain ⟨⟨n, c⟩, hfind, rfl⟩ := Option.map_eq_some_iff.mp h
  obtain ⟨hn, l₁, l₂, hfiles, hbefore⟩ := List.find?_eq_some_iff_append.mp hfind
  obtain rfl : n = name := by simpa using hn
  refine ⟨l₁, l₂, hfiles, fun x hx => by simpa using hbefore x hx, fun x hx heq => ?_⟩
  have hnd := dir.nodup
  rw [hfiles, List.map_append, List.map_cons] at hnd
  have := (List.nodup_cons.mp (List.nodup_append.mp hnd).2.1).1
  exact this (List.mem_map.mpr ⟨x, hx, heq⟩)

theorem indexedBytes_unlink_le (g : Process) (dir : Dir) (name : Bytes) :
    indexedBytes g (dir.unlink name) ≤ indexedBytes g dir := by
  rw [indexedBytes_eq, indexedBytes_eq]
  exact (List.filter_sublist.map fileBytes).sum_le_sum fun _ _ => Nat.zero_le _

theorem indexedBytes_rename_le (g : Process) (dir : Dir) (name content : Bytes) :
    indexedBytes g (dir.rename name content) ≤ indexedBytes g dir + content.length := by
  have h := indexedBytes_unlink_le g dir name
  rw [indexedBytes_eq g (dir.unlink name)] at h
  rw [indexedBytes_eq, Dir.rename]
  simp only [List.map_append, List.map_cons, List.map_nil, List.sum_append, List.sum_cons,
    List.sum_nil]
  have := fileBytes_le (name, content)
  simp only at this
  omega

theorem indexedBytes_update {g : Process} {dir : Dir} {name content : Bytes} (f : Bytes → Bytes)
    (h : dir.content name = some content) :
    indexedBytes g (dir.update name f) + fileBytes (name, content) =
      indexedBytes g dir + fileBytes (name, f content) := by
  have hother : ∀ l : List (Bytes × Bytes), (∀ x ∈ l, x.1 ≠ name) →
      l.map (fun x => if x.1 = name then (x.1, f x.2) else x) = l := fun l hl =>
    (List.map_congr_left fun x hx => if_neg (hl x hx)).trans (List.map_id' l)
  obtain ⟨l₁, l₂, hfiles, h₁, h₂⟩ := content_split h
  simp only [indexedBytes_eq, Dir.update, hfiles, List.map_append, List.map_cons,
    hother l₁ h₁, hother l₂ h₂, if_true, List.sum_append, List.sum_cons]
  omega

theorem indexedBytes_update_none {g : Process} {dir : Dir} {name : Bytes} (f : Bytes → Bytes)
    (h : dir.content name = none) : indexedBytes g (dir.update name f) = indexedBytes g dir := by
  have hne : ∀ x ∈ dir.files, x.1 ≠ name := fun x hx heq => by
    rw [← heq, Dir.content_of_mem hx] at h
    cases h
  rw [indexedBytes_eq, indexedBytes_eq, Dir.update]
  simp only
  rw [(List.map_congr_left fun x hx => if_neg (hne x hx)).trans (List.map_id' dir.files)]

/-! ## Writes in place -/

/-- Contents that agree where the size of an entry is read. -/
structure SameHead (c d : Bytes) : Prop where
  front : part c 0 6 = part d 0 6
  tokens : part c 8 4 = part d 8 4
  sizes : part c 40 44 = part d 40 44

theorem SameHead.trans {c d e : Bytes} (h : SameHead c d) (h' : SameHead d e) : SameHead c e :=
  ⟨h.front.trans h'.front, h.tokens.trans h'.tokens, h.sizes.trans h'.sizes⟩

theorem sameHead_patch {c b : Bytes} {off : Nat} (hoff : off ≤ c.length)
    (h : off = 6 ∧ b.length = 1 ∨ off = 12 ∧ b.length = 4 ∨ off = 32 ∧ b.length = 8) :
    SameHead (patch c off b) c :=
  ⟨part_patch hoff (by omega), part_patch hoff (by omega), part_patch hoff (by omega)⟩

theorem sameHead_of_prefix {c d : Bytes} {n : Nat} (hn : 84 ≤ n) (h : c.take n = d.take n) :
    SameHead c d := by
  have hpart : ∀ i k, i + k ≤ 84 → part c i k = part d i k := fun i k hik => by
    rw [← part_take (d := c) (n := n) (by omega), h, part_take (by omega)]
  exact ⟨hpart 0 6 (by omega), hpart 8 4 (by omega), hpart 40 44 (by omega)⟩

namespace SameHead

variable {c d : Bytes} (h : SameHead c d)
include h

theorem getD_eq {i : Nat} (hi : i < 6) : c.getD i 0 = d.getD i 0 := by
  have hpart := congrArg (·.getD i 0) h.front
  simpa only [part, List.drop_zero, getD_take hi] using hpart

theorem headerLength_eq : headerLength c = headerLength d := by
  rw [headerLength, headerLength, h.getD_eq (by omega)]

theorem filePayloadBytes_eq : filePayloadBytes c = filePayloadBytes d := by
  rw [filePayloadBytes, filePayloadBytes, ← get64_take (c.drop 40) (n := 44) (by omega),
    ← get64_take (d.drop 40) (n := 44) (by omega)]
  exact congrArg (fun l => (get64 l).toNat) h.sizes

theorem fileTextBytes_eq : fileTextBytes c = fileTextBytes d := by
  have hsize : ∀ k, 40 ≤ k → k ≤ 80 → get32 (c.drop k) = get32 (d.drop k) := fun k hk hk' => by
    have hdrop := congrArg (fun l => get32 (l.drop (k - 40))) h.sizes
    simp only [part, List.drop_take, List.drop_drop, Nat.add_sub_of_le hk] at hdrop
    rwa [get32_take _ (by omega), get32_take _ (by omega)] at hdrop
  have hlen : 40 ≤ headerLength d ∧ headerLength d ≤ 80 := by unfold headerLength; split <;> omega
  rw [fileTextBytes, fileTextBytes, h.headerLength_eq, hsize _ hlen.1 hlen.2]

theorem parsesHeader (hc : ParsesHeader c) (hlen : headerLength d + 4 ≤ d.length) :
    ParsesHeader d := by
  obtain ⟨-, hmagic, hversion, htokens, hquant⟩ := hc
  have hmagic' := congrArg (·.take 3) h.front
  simp only [part, List.drop_zero, List.take_take, Nat.reduceLeDiff, inf_of_le_left] at hmagic'
  refine ⟨hlen, by rw [← hmagic', hmagic], by rwa [← h.getD_eq (by omega)], ?_,
    by rwa [← h.getD_eq (by omega)]⟩
  rwa [← get32_take _ (n := 4) le_rfl, ← show part c 8 4 = (d.drop 8).take 4 from h.tokens,
    part, get32_take _ le_rfl]

theorem counted (hc : Counted c)
    (hlen : headerLength d + 4 + fileTextBytes d + filePayloadBytes d ≤ d.length) : Counted d :=
  ⟨h.parsesHeader hc.1 (by omega), hlen, by
    rw [← h.headerLength_eq, ← h.fileTextBytes_eq, ← h.filePayloadBytes_eq]
    exact hc.2.2⟩

end SameHead

theorem SameHead.symm {c d : Bytes} (h : SameHead c d) : SameHead d c :=
  ⟨h.front.symm, h.tokens.symm, h.sizes.symm⟩

theorem SameHead.countedBytes_eq {c d : Bytes} (h : SameHead c d) (hlen : c.length = d.length) :
    countedBytes c = countedBytes d := by
  have hstep : ∀ {c d : Bytes}, SameHead c d → c.length = d.length → Counted c → Counted d :=
    fun h hlen hc => h.counted hc (by
      rw [← h.headerLength_eq, ← h.fileTextBytes_eq, ← h.filePayloadBytes_eq, ← hlen]
      exact hc.2.1)
  unfold countedBytes
  rw [hlen, if_congr ⟨hstep h hlen, hstep h.symm hlen.symm⟩ rfl rfl]

theorem readHeader_open {g : Process} {c : Bytes} {r : Entry × UInt32 × File}
    (h : readHeader g (File.open' c) = some r) :
    ParsesHeader c ∧ c.getD 3 0 = 2 ∧ r.1.payloadBytes.toNat = filePayloadBytes c ∧
      r.2.1.toNat = fileTextBytes c ∧ r.2.2 = ⟨c, headerLength c + 4⟩ := by
  unfold readHeader at h
  obtain ⟨hparse, hrefusal⟩ := Option.filter_eq_some_iff.mp h
  rw [parseHeader_open] at hparse
  split at hparse
  swap
  · cases hparse
  next hp =>
  obtain rfl := Option.some.inj hparse
  obtain ⟨hversion, hpayload⟩ := headerEntry_head (g := g) (c := c) (get32 (c.drop (headerLength c)))
  refine ⟨hp, ?_, by rw [hpayload]; rfl, rfl, rfl⟩
  refine hp.2.2.1.resolve_left fun h1 => ?_
  have hlen : 48 ≤ headerLength c := by unfold headerLength; split <;> omega
  have hget : (c.take (headerLength c)).getD 3 0 = 1 := by rw [getD_take (by omega), h1]
  simp only [headerEntry, hget, refusalOf, if_true, Option.isNone_some, Bool.false_eq_true] at hrefusal

theorem countedBytes_touch (g : Process) (hits : UInt32) (now : UInt64) (c : Bytes) :
    countedBytes (touchContent g hits now c) = countedBytes c := by
  unfold touchContent
  split
  · rfl
  next f h =>
    obtain ⟨hp, -, -, -, rfl⟩ := readHeader_open h
    have hlen : 52 ≤ c.length := by
      have := hp.1
      have : 48 ≤ headerLength c := by unfold headerLength; split <;> omega
      omega
    have h₁ : (patch c 12 (put32 hits)).length = c.length := patch_length (by simp; omega)
    have h₂ : (patch (patch c 12 (put32 hits)) 32 (put64 now)).length = c.length := by
      rw [patch_length (by rw [h₁, put64_length]; omega), h₁]
    refine SameHead.countedBytes_eq ?_ h₂
    exact (sameHead_patch (show 32 ≤ (patch c 12 (put32 hits)).length by omega) (by simp)).trans
      (sameHead_patch (show 12 ≤ c.length by omega) (by simp))

theorem indexedBytes_touch (g g' : Process) (dir : Dir) (path : Bytes) (hits : UInt32)
    (now : UInt64) : indexedBytes g (touchFile g' dir path hits now) = indexedBytes g dir := by
  unfold touchFile
  cases h : dir.content path with
  | none => exact indexedBytes_update_none _ h
  | some content =>
    have := indexedBytes_update (g := g) (touchContent g' hits now) h
    rw [show fileBytes (path, touchContent g' hits now content) = fileBytes (path, content) by
      simp only [fileBytes, countedBytes_touch]] at this
    omega

/-! ## Rewriting a trailer -/

/-- The end of the payload in a file. -/
def payloadEnd (c : Bytes) : Nat := headerLength c + 4 + fileTextBytes c + filePayloadBytes c

theorem payloadEnd_eq {g : Process} {c : Bytes} {r : Entry × UInt32 × File} (hc : Counted c)
    (hr : readHeader g (File.open' c) = some r) :
    headerLength c = 80 ∧
      (84 + r.2.1.toNat + r.1.payloadBytes.toNat) % 2 ^ 64 = payloadEnd c := by
  obtain ⟨-, hversion, hpayload, htext, -⟩ := readHeader_open hr
  have hhead : headerLength c = 80 := by rw [headerLength, hversion]; rfl
  have hmax : payloadEnd c ≤ uint64Max := hc.2.2
  have : uint64Max < 2 ^ 64 := by decide
  rw [payloadEnd, hhead] at hmax
  exact ⟨hhead, by rw [hpayload, htext, payloadEnd, hhead, Nat.mod_eq_of_lt (by omega)]⟩

theorem countedBytes_rewrite {g : Process} {write : TrailerWrite} {extFlag : UInt8} {text c : Bytes}
    {now : UInt64} {r : Entry × UInt32 × File} (hc : Counted c) (hlt : payloadEnd c < 2 ^ 63)
    (hr : readHeader g (File.open' c) = some r) :
    countedBytes (rewriteContent g write extFlag text now c) =
      payloadEnd c + ((write text).getD []).length := by
  obtain ⟨hhead, hend⟩ := payloadEnd_eq hc hr
  have hle : payloadEnd c ≤ c.length := hc.2.1
  have h84 : 84 ≤ payloadEnd c := by rw [payloadEnd, hhead]; omega
  have hbase : truncate c (payloadEnd c) = c.take (payloadEnd c) := by
    rw [truncate, Nat.sub_eq_zero_of_le hle, List.replicate_zero, List.append_nil]
  set t := (write text).getD [] with ht
  set d := c.take (payloadEnd c) ++ t with hd
  have hdlen : d.length = payloadEnd c + t.length := by
    rw [hd, List.length_append, List.length_take, Nat.min_eq_left hle]
  have hcd : SameHead c d := sameHead_of_prefix h84 (by
    rw [hd, List.take_append_of_le_length (by rw [List.length_take]; omega), List.take_take,
      Nat.min_self])
  have hcounted : Counted d := by
    refine hcd.counted hc ?_
    rw [← hcd.headerLength_eq, ← hcd.fileTextBytes_eq, ← hcd.filePayloadBytes_eq, hdlen]
    exact Nat.le_add_right _ _
  have happend : ∀ pos, ((File.mk (c.take (payloadEnd c)) pos).seek (payloadEnd c)).write t =
      ⟨d, payloadEnd c + t.length⟩ := fun pos => by
    rw [File.seek, File.write, patch, List.take_take, Nat.min_self, List.drop_eq_nil_of_le,
      List.append_nil]
    rw [List.length_take]
    exact (Nat.min_le_left _ _).trans (Nat.le_add_right _ _)
  have hwritten : SameHead (rewriteContent g write extFlag text now c) d ∧
      (rewriteContent g write extFlag text now c).length = d.length := by
    unfold rewriteContent
    simp only [hr, hend, if_pos hlt, hbase]
    cases hw : write text with
    | none =>
      have : d = c.take (payloadEnd c) := by rw [hd, ht, hw, Option.getD_none, List.append_nil]
      rw [this]
      exact ⟨⟨rfl, rfl, rfl⟩, rfl⟩
    | some t' =>
      obtain rfl : t' = t := by rw [ht, hw, Option.getD_some]
      simp only [happend]
      split
      · exact ⟨⟨rfl, rfl, rfl⟩, rfl⟩
      · have h₁ : (patch d 6 [r.1.extFlags ||| extFlag]).length = d.length :=
          patch_length (by simp; omega)
        refine ⟨(sameHead_patch ?_ (by simp)).trans (sameHead_patch ?_ (by simp)), ?_⟩
        · change 32 ≤ (patch d 6 [r.1.extFlags ||| extFlag]).length
          omega
        · change 6 ≤ d.length
          omega
        · change (patch (patch d 6 [r.1.extFlags ||| extFlag]) 32 (put64 now)).length = d.length
          rw [patch_length (by rw [h₁, put64_length]; omega), h₁]
  rw [hwritten.1.countedBytes_eq hwritten.2, countedBytes, if_pos hcounted, hdlen]

theorem rewriteContent_long {g : Process} {write : TrailerWrite} {extFlag : UInt8} {text c : Bytes}
    {now : UInt64} {r : Entry × UInt32 × File} (hc : Counted c) (hlt : ¬ payloadEnd c < 2 ^ 63)
    (hr : readHeader g (File.open' c) = some r) :
    rewriteContent g write extFlag text now c = c := by
  obtain ⟨-, hend⟩ := payloadEnd_eq hc hr
  simp only [rewriteContent, hr, hend, if_neg hlt]

end Ds4.Kvstore
