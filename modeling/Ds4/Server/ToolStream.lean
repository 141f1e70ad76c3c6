import Ds4.Server.ToolText
import Ds4.Server.Utf8Hold

/-!
# Streaming the value of a tool parameter

A parameter's value is sent while it is written. `tool_param_value_stream_safe_len` decides how far:
not into a closing tag that may begin, not into an escape of the closing tag that may begin, not
into a character whose bytes are not all there. Every fragment is unescaped on its own.
-/

namespace Ds4.Server

open Ds4.Lib

/-! ## Model -/

/-- What `ds4_tool_text_partial_escape` sees behind the `amp;`s. -/
def partialTail (t fin : Bytes) : Prop :=
  if t.length < 4 ∧ t <+: lit "amp;" then True
  else if t.length < 3 then t <+: lit "lt;"
  else lit "lt;" <+: t ∧ (t.drop 3).length < fin.tail.length ∧ t.drop 3 <+: fin.tail

/-- `ds4_tool_text_partial_escape`. -/
def partialEscape (s fin : Bytes) : Prop := s.head? = some 38 ∧ partialTail (skipAmps s.tail) fin

instance (s fin : Bytes) : Decidable (partialTail s fin) := by
  unfold partialTail
  infer_instance

instance (s fin : Bytes) : Decidable (partialEscape s fin) :=
  inferInstanceAs (Decidable (_ ∧ _))

/-- The last place of `c` between `scan` and the given place. -/
def lastAt (raw : Bytes) (c : UInt8) (scan : Nat) : Nat → Option Nat
  | 0 => none
  | i + 1 =>
    if i + 1 ≤ scan then none else if raw.getD i 0 = c then some i else lastAt raw c scan i

/-- The limit in front of a closing tag that may begin. -/
def closerLimit (raw : Bytes) (start rawLen : Nat) (paramEnd : Bytes) : Nat :=
  let scan := if start + paramEnd.length < rawLen then rawLen - paramEnd.length else start
  match lastAt raw 60 scan rawLen with
  | some marker =>
    if rawLen - marker < paramEnd.length ∧ slice raw marker rawLen <+: paramEnd then marker
    else rawLen
  | none => rawLen

/-- The limit in front of an escape that may begin. -/
def escapeLimit (raw : Bytes) (start limit : Nat) (paramEnd : Bytes) : Nat :=
  match lastAt raw 38 start limit with
  | some i => if partialEscape (slice raw i limit) paramEnd then i else limit
  | none => limit

/-- `tool_param_value_stream_safe_len`. -/
def toolParamValueStreamSafeLen (raw : Bytes) (start rawLen : Nat) (paramEnd : Bytes)
    (isString : Bool) : Nat :=
  let limit := closerLimit raw start rawLen paramEnd
  let limit := if isString then escapeLimit raw start limit paramEnd else limit
  utf8StreamSafeLen raw start limit false

/-- What `openai_tool_emit_string_value` and `anthropic_tool_emit_string_value` make of a fragment,
before it is written as JSON. -/
def emitStringValue (paramEnd text : Bytes) : Bytes := toolTextUnescape (cString text) paramEnd

/-- The stream of a value: the place up to which it is sent, and the fragments that were cut. -/
structure ParamValue where
  parsePos : Nat
  fragments : List Bytes
  closed : Bool

/-- A fragment is sent unless it is empty. -/
def ParamValue.emit (st : ParamValue) (raw : Bytes) (limit : Nat) : ParamValue :=
  if st.parsePos < limit then
    { st with parsePos := limit, fragments := st.fragments ++ [slice raw st.parsePos limit] }
  else st

/-- `DSML_TOOL_PARAM_VALUE` in `openai_tool_stream_update` and `anthropic_tool_stream_update`, for a
string value, with `openai_tool_finish_param`. -/
def ParamValue.update (paramEnd : Bytes) (st : ParamValue) (raw : Bytes) : ParamValue :=
  if st.closed ∨ raw.length ≤ st.parsePos then st
  else
    match strstr (raw.drop st.parsePos) paramEnd with
    | some t =>
      let st := st.emit raw (raw.length - t.length)
      { st with parsePos := raw.length - t.length + paramEnd.length, closed := true }
    | none => st.emit raw (toolParamValueStreamSafeLen raw st.parsePos raw.length paramEnd true)

/-- A stream that is offered the text up to each of the given lengths. -/
def ParamValue.run (paramEnd text : Bytes) (st : ParamValue) (lens : List Nat) : ParamValue :=
  lens.foldl (fun st n => st.update paramEnd (text.take n)) st

/-- The values that were sent. -/
def ParamValue.sent (paramEnd : Bytes) (st : ParamValue) : List Bytes :=
  st.fragments.map (emitStringValue paramEnd)

/-! ## Escapes that may begin -/

/-- An escape of a closing tag. -/
def escapeForm (k : Nat) (fin : Bytes) : Bytes := 38 :: (amps k ++ (lit "lt;" ++ fin.tail))

theorem skipAmps_of_length_lt {t : Bytes} (h : t.length < 4) : skipAmps t = t := by
  rw [skipAmps.eq_2]
  rintro s rfl
  simp only [List.length_cons] at h
  omega

theorem partialTail_of_isPrefix {fin t : Bytes} (k : Nat) (ht : t <+: amps k ++ (lit "lt;" ++ fin.tail))
    (hlt : t.length < (amps k ++ (lit "lt;" ++ fin.tail)).length) :
    partialTail (skipAmps t) fin := by
  induction k generalizing t with
  | zero =>
    rw [amps, List.nil_append] at ht hlt
    rcases Nat.lt_or_ge t.length 3 with h3 | h3
    · rw [skipAmps_of_length_lt (by omega), partialTail]
      split_ifs
      exact List.prefix_of_prefix_length_le ht (List.prefix_append (lit "lt;") fin.tail) h3.le
    · obtain ⟨u, rfl⟩ : lit "lt;" <+: t :=
        List.prefix_of_prefix_length_le (List.prefix_append _ _) ht h3
      have hu : u <+: fin.tail := (List.prefix_append_right_inj _).mp ht
      have hskip : skipAmps (lit "lt;" ++ u) = lit "lt;" ++ u := by
        rw [skipAmps.eq_2]
        intro s hs
        exact absurd (List.cons.inj hs).1 (by decide)
      have hlen : (lit "lt;").length = 3 := rfl
      rw [List.length_append, hlen] at h3 hlt
      rw [hskip, partialTail, if_neg, if_neg (by rw [List.length_append, hlen]; omega)]
      · refine ⟨List.prefix_append _ _, ?_, hu⟩
        rw [List.drop_left' hlen]
        rw [List.length_append, hlen] at hlt
        omega
      · rintro ⟨-, hp⟩
        exact absurd (List.cons_prefix_cons.mp hp).1 (by decide)
  | succ k ih =>
    rw [amps, List.append_assoc] at ht hlt
    rcases Nat.lt_or_ge t.length 4 with h4 | h4
    · rw [skipAmps_of_length_lt h4, partialTail, if_pos]
      · trivial
      · exact ⟨h4, List.prefix_of_prefix_length_le ht (List.prefix_append _ _) h4.le⟩
    · obtain ⟨u, rfl⟩ : lit "amp;" <+: t :=
        List.prefix_of_prefix_length_le (List.prefix_append _ _) ht h4
      refine ih (t := u) ((List.prefix_append_right_inj (lit "amp;")).mp ht) ?_
      rw [List.length_append, List.length_append] at hlt
      omega

/-- **The beginning of an escape is a partial escape.** -/
theorem partialEscape_of_isPrefix {fin t : Bytes} {k : Nat} (ht : t <+: escapeForm k fin)
    (hne : t ≠ []) (hlt : t.length < (escapeForm k fin).length) : partialEscape t fin := by
  obtain ⟨c, t, rfl⟩ := List.exists_cons_of_ne_nil hne
  obtain ⟨rfl, ht'⟩ := List.cons_prefix_cons.mp ht
  refine ⟨rfl, partialTail_of_isPrefix (t := t) k ht' ?_⟩
  simpa [escapeForm] using hlt
/-! ## Places -/

theorem lastAt_cases (raw : Bytes) (c : UInt8) (scan i : Nat) :
    (lastAt raw c scan i = none ∧ ∀ j, scan ≤ j → j < i → raw.getD j 0 ≠ c) ∨
      ∃ m, lastAt raw c scan i = some m ∧ scan ≤ m ∧ m < i ∧ raw.getD m 0 = c ∧
        ∀ j, m < j → j < i → raw.getD j 0 ≠ c := by
  induction i with
  | zero => exact .inl ⟨rfl, fun j _ h => by omega⟩
  | succ i ih =>
    rw [lastAt]
    split_ifs with h1 h2
    · exact .inl ⟨rfl, fun j _ h => by omega⟩
    · exact .inr ⟨i, rfl, by omega, by omega, h2, fun j _ h => by omega⟩
    · rcases ih with ⟨hnone, hno⟩ | ⟨m, hsome, hm1, hm2, hm3, hno⟩
      · refine .inl ⟨hnone, fun j hj hji => ?_⟩
        by_cases hj' : j = i
        · rwa [hj']
        · exact hno j hj (by omega)
      · refine .inr ⟨m, hsome, hm1, by omega, hm3, fun j hj hji => ?_⟩
        by_cases hj' : j = i
        · rwa [hj']
        · exact hno j hj (by omega)

/-! ## The limits -/

section Limits

variable {fin : Bytes}

theorem escapeForm_eq (k : Nat) (fin : Bytes) :
    ∃ p : Bytes, escapeForm k fin = p ++ fin.tail ∧ ∀ c ∈ p, c < 0x80 := by
  refine ⟨38 :: (amps k ++ lit "lt;"), by simp [escapeForm], fun c hc => ?_⟩
  have hamp : ∀ c ∈ lit "amp;", c < 0x80 := by decide
  have hlt : ∀ c ∈ lit "lt;", c < 0x80 := by decide
  have hamps : ∀ k, ∀ c ∈ amps k, c < 0x80 := by
    intro k
    induction k with
    | zero => simp [amps]
    | succ k ih =>
      intro c hc
      rcases List.mem_append.mp hc with hc | hc
      · exact hamp c hc
      · exact ih c hc
  rcases List.mem_cons.mp hc with rfl | hc
  · decide
  · rcases List.mem_append.mp hc with hc | hc
    · exact hamps k c hc
    · exact hlt c hc

theorem escapeForm_ne_amp (hfin : CloseTag fin) {k i : Nat} (h0 : 0 < i)
    (hi : i < (escapeForm k fin).length) : (escapeForm k fin).getD i 0 ≠ 38 := by
  obtain ⟨i, rfl⟩ := Nat.exists_eq_succ_of_ne_zero h0.ne'
  have hno : 38 ∉ amps k ++ (lit "lt;" ++ fin.tail) := by
    simpa using ⟨not_mem_amps (by decide) k, by decide, hfin.tail.1⟩
  rw [escapeForm, List.length_cons] at hi
  rw [escapeForm, Nat.succ_eq_add_one, List.getD_cons_succ, List.getD_eq_getElem _ _ (by omega)]
  exact fun h => hno (h ▸ List.getElem_mem _)

/-- **In front of the limit every escape that begins ends.** -/
theorem escapeLimit_spec (hfin : CloseTag fin) {raw text : Bytes} {start limit : Nat}
    (htext : raw <+: text) (hs : start ≤ limit) (hl : limit ≤ raw.length) :
    start ≤ escapeLimit raw start limit fin ∧ escapeLimit raw start limit fin ≤ limit ∧
      ∀ k q, start ≤ q → q < escapeLimit raw start limit fin →
        escapeForm k fin <+: text.drop q →
        q + (escapeForm k fin).length ≤ escapeLimit raw start limit fin := by
  have hget : ∀ {k q i}, escapeForm k fin <+: text.drop q → q ≤ i → i < raw.length →
      i < q + (escapeForm k fin).length → raw.getD i 0 = (escapeForm k fin).getD (i - q) 0 := by
    intro k q i hf hq hir hiq
    rw [← getD_of_isPrefix_drop hf hq hiq, getD_of_isPrefix htext hir]
  have hpos : ∀ k, 0 < (escapeForm k fin).length := fun k => by simp [escapeForm]
  -- an escape reaches over no other `&`
  have hover : ∀ {k q i}, escapeForm k fin <+: text.drop q → q < i → i < raw.length →
      raw.getD i 0 = 38 → q + (escapeForm k fin).length ≤ i := by
    intro k q i hf hq hir h38
    by_contra hlt
    rw [hget hf hq.le hir (by omega)] at h38
    exact escapeForm_ne_amp hfin (by omega) (by omega) h38
  have hfirst : ∀ {k q}, escapeForm k fin <+: text.drop q → q < raw.length →
      raw.getD q 0 = 38 := by
    intro k q hf hq
    have := hpos k
    rw [hget hf le_rfl hq (by omega), Nat.sub_self]
    rfl
  rw [escapeLimit]
  rcases lastAt_cases raw 38 start limit with ⟨hnone, hno⟩ | ⟨a, hsome, ha, hal, ha38, hno⟩
  · rw [hnone]
    dsimp only
    refine ⟨hs, le_rfl, fun k q hq hql hf => ?_⟩
    exact absurd (hfirst hf (by omega)) (hno q hq hql)
  · rw [hsome]
    dsimp only
    split_ifs with hpart
    · exact ⟨ha, hal.le, fun k q hq hqa hf => hover hf hqa (by omega) ha38⟩
    · refine ⟨hs, le_rfl, fun k q hq hql hf => ?_⟩
      rcases Nat.lt_trichotomy q a with hqa | rfl | hqa
      · exact (hover hf hqa (by omega) ha38).trans hal.le
      · by_contra hlt
        refine hpart (partialEscape_of_isPrefix (k := k) ?_ ?_ ?_)
        · rw [slice_of_isPrefix htext hl]
          refine List.prefix_of_prefix_length_le (List.take_prefix _ _) hf ?_
          rw [length_slice (hl.trans htext.length_le)]
          omega
        · rw [← List.length_pos_iff, length_slice hl]
          omega
        · rw [length_slice hl]
          omega
      · exact absurd (hfirst hf (by omega)) (hno q hqa hql)

/-- **The limit is not behind the text when the closing tag has begun.** -/
theorem closerLimit_spec (hfin : CloseTag fin) {body rest : Bytes} {start n : Nat}
    (hs : start ≤ body.length) (hsn : start ≤ n) (hn : n < body.length + fin.length)
    (hlen : n ≤ (body ++ (fin ++ rest)).length) :
    start ≤ closerLimit ((body ++ (fin ++ rest)).take n) start n fin ∧
      closerLimit ((body ++ (fin ++ rest)).take n) start n fin ≤ n ∧
      closerLimit ((body ++ (fin ++ rest)).take n) start n fin ≤ body.length := by
  have htake : ((body ++ (fin ++ rest)).take n).length = n := by
    rw [List.length_take]
    omega
  -- behind the text stands the beginning of the closing tag
  have hget : ∀ i, body.length ≤ i → i < n →
      ((body ++ (fin ++ rest)).take n).getD i 0 = fin.getD (i - body.length) 0 := by
    intro i hi hin
    rw [← getD_of_isPrefix (List.take_prefix n _) (by omega), List.getD_append_right _ _ _ _ hi,
      List.getD_append _ _ _ _ (by omega)]
  have hopen : fin.getD 0 0 = 60 := by
    rw [hfin.marker.eq_cons]
    rfl
  have honly : ∀ i, 0 < i → i < fin.length → fin.getD i 0 ≠ 60 := by
    intro i h0 hi
    obtain ⟨i, rfl⟩ := Nat.exists_eq_succ_of_ne_zero h0.ne'
    have hno := hfin.tail.2
    rw [hfin.marker.eq_cons, List.length_cons] at hi
    rw [hfin.marker.eq_cons, Nat.succ_eq_add_one, List.getD_cons_succ,
      List.getD_eq_getElem _ _ (by omega)]
    exact fun h => hno (h ▸ List.getElem_mem _)
  rw [closerLimit]
  generalize hscan : (if start + fin.length < n then n - fin.length else start) = scan
  have hscan1 : start ≤ scan := by split_ifs at hscan <;> omega
  have hscan2 : body.length ≤ n → scan ≤ body.length := by split_ifs at hscan <;> omega
  rcases lastAt_cases ((body ++ (fin ++ rest)).take n) 60 scan n with
    ⟨hnone, hno⟩ | ⟨m, hsome, hm, hmn, hm60, hno⟩
  · rw [hnone]
    dsimp only
    refine ⟨hsn, le_rfl, ?_⟩
    by_contra hlt
    refine hno body.length (hscan2 (by omega)) (by omega) ?_
    rw [hget _ le_rfl (by omega), Nat.sub_self, hopen]
  · rw [hsome]
    dsimp only
    rcases Nat.lt_or_ge body.length n with hbn | hbn
    · have hmb : m = body.length := by
        rcases Nat.lt_trichotomy m body.length with hlt | heq | hgt
        · refine absurd ?_ (hno body.length hlt hbn)
          rw [hget _ le_rfl hbn, Nat.sub_self, hopen]
        · exact heq
        · rw [hget m hgt.le hmn] at hm60
          exact absurd hm60 (honly _ (by omega) (by omega))
      subst hmb
      have hslice : slice ((body ++ (fin ++ rest)).take n) body.length n <+: fin := by
        rw [slice_of_isPrefix (List.take_prefix n _) htake.ge, slice, List.drop_left]
        refine List.prefix_of_prefix_length_le (List.take_prefix _ _) (List.prefix_append fin rest) ?_
        rw [List.length_take]
        omega
      rw [if_pos ⟨by omega, hslice⟩]
      exact ⟨hs, hmn.le, le_rfl⟩
    · split_ifs
      · exact ⟨hscan1.trans hm, hmn.le, by omega⟩
      · exact ⟨hsn, le_rfl, hbn⟩

end Limits

/-! ## The cut -/

section Cut

variable {fin : Bytes}

/-- A character that is held in front of an escape's end makes the closing tag stop inside it. -/
theorem stopsInside_of_held (hfin : CloseTag fin) {raw text : Bytes} (htext : raw <+: text)
    {i limit k q : Nat} (hl : limit ≤ raw.length) (hheld : Held raw i limit)
    (hf : escapeForm k fin <+: text.drop q) (hq : q < i)
    (hi : i < q + (escapeForm k fin).length) (hend : q + (escapeForm k fin).length ≤ limit) :
    StopsInside fin := by
  obtain ⟨hlt, hcont, hlen⟩ := hheld
  obtain ⟨p, hform, hascii⟩ := escapeForm_eq k fin
  have hflen : (escapeForm k fin).length = p.length + (fin.length - 1) := by
    rw [hform, List.length_append, List.length_tail]
  have hget : ∀ j, q ≤ j → j < q + (escapeForm k fin).length →
      raw.getD j 0 = (escapeForm k fin).getD (j - q) 0 := by
    intro j hj hj'
    rw [← getD_of_isPrefix_drop hf hj hj', getD_of_isPrefix htext (by omega)]
  -- the ASCII in front of the tail asks for nothing
  have htail : p.length ≤ i - q := by
    by_contra hlt'
    have hc : raw.getD i 0 < 0x80 := by
      rw [hget i hq.le hi, hform, List.getD_append _ _ _ _ (by omega),
        List.getD_eq_getElem _ _ (by omega)]
      exact hascii _ (List.getElem_mem _)
    exact absurd (of_expectedLen (c := raw.getD i 0) (by omega)).2 (UInt8.not_le.mpr hc)
  have hfget : ∀ j, p.length ≤ j → (escapeForm k fin).getD j 0 = fin.getD (j - p.length + 1) 0 := by
    intro j hj
    rw [hform, List.getD_append_right _ _ _ _ hj, hfin.marker.eq_cons, List.tail_cons,
      List.getD_cons_succ]
  refine ⟨i - q - p.length + 1, by omega, fun j hj hj' => ?_, ?_⟩
  · have := hcont (q + p.length + (j - 1)) (by omega) (by omega)
    rw [hget _ (by omega) (by omega), hfget _ (by omega)] at this
    rwa [show q + p.length + (j - 1) - q - p.length + 1 = j by omega] at this
  · rw [hget i hq.le hi, hfget _ htail] at hlen
    omega

/-- The text in front of its closing tag, of which `n` bytes are there but not the whole tag. -/
structure ValueOffer (fin body rest : Bytes) (start n : Nat) : Prop where
  start_le : start ≤ body.length
  start_le_offer : start ≤ n
  partialTag : n < body.length + fin.length
  length_le : n ≤ (body ++ (fin ++ rest)).length

/-- **Where the value is cut.** The cut lies in the text and leaves whole characters, and no escape reaches over
it unless the tag stops inside a character. -/
theorem safeLen_spec (hfin : CloseTag fin) {body rest : Bytes}
    {start n : Nat} (ho : ValueOffer fin body rest start n) {limit : Nat}
    (hlimit : toolParamValueStreamSafeLen ((body ++ (fin ++ rest)).take n) start n fin true = limit) :
    start ≤ limit ∧ limit ≤ n ∧ limit ≤ body.length ∧
      (¬ StopsInside fin → ∀ k q, start ≤ q → q < limit → escapeForm k fin <+: body.drop q →
        q + (escapeForm k fin).length ≤ limit) ∧
      (ValidUtf8 (body.drop start) → ValidUtf8 (slice body start limit) ∧
        ValidUtf8 (body.drop limit)) := by
  obtain ⟨hs, hsn, hn, hlen⟩ := ho
  have htake : ((body ++ (fin ++ rest)).take n).length = n := by
    rw [List.length_take]
    omega
  have htext : (body ++ (fin ++ rest)).take n <+: body ++ (fin ++ rest) := List.take_prefix _ _
  obtain ⟨ha1, ha2, ha3⟩ := closerLimit_spec hfin hs hsn hn hlen
  rw [toolParamValueStreamSafeLen, if_pos rfl] at hlimit
  generalize hraw : (body ++ (fin ++ rest)).take n = raw at *
  generalize closerLimit raw start n fin = l1 at *
  obtain ⟨hb1, hb2, hb3⟩ := escapeLimit_spec hfin htext ha1 (ha2.trans htake.ge)
  generalize escapeLimit raw start l1 fin = l2 at *
  have hfin' : ∀ {k q}, escapeForm k fin <+: body.drop q → q < body.length →
      escapeForm k fin <+: (body ++ (fin ++ rest)).drop q := by
    intro k q hf hq
    rw [List.drop_append_of_le_length hq.le]
    exact hf.trans (List.prefix_append _ _)
  have hbody : ∀ i, i < n → i < body.length → raw.getD i 0 = body.getD i 0 := by
    intro i hin hib
    rw [← getD_of_isPrefix htext (by omega), List.getD_append _ _ _ _ hib]
  rcases utf8StreamSafeLen_cases raw hb1 with hr | hr | ⟨hr1, hr2⟩
  · rw [hr] at hlimit
    subst hlimit
    refine ⟨hb1, by omega, by omega, fun _ k q hq hql hf => hb3 k q hq hql (hfin' hf (by omega)),
      fun hv => ?_⟩
    rw [← slice_append_drop hb1] at hv
    refine hv.of_append ?_
    rintro ⟨i, hi, hcont, hneed⟩
    rw [length_slice (by omega)] at hi hcont hneed
    have hget : ∀ j, j < l2 - start → (slice body start l2).getD j 0 = raw.getD (start + j) 0 := by
      intro j hj
      rw [getD_slice (by omega) hj, hbody _ (by omega) (by omega)]
    have hheld : Held raw (start + i) l2 := by
      refine ⟨by omega, fun j hj hj' => ?_, ?_⟩
      · have := hcont (j - start) (by omega) (by omega)
        rwa [hget _ (by omega), show start + (j - start) = j by omega] at this
      · rw [← hget i hi]
        omega
    rw [utf8StreamSafeLen_of_held (by omega) hheld] at hr
    omega
  · rw [hr] at hlimit
    subst hlimit
    refine ⟨le_rfl, hsn, hs, fun _ k q hq hql => by omega, fun hv => ⟨?_, hv⟩⟩
    rw [slice, Nat.sub_self, List.take_zero]
    exact validUtf8_nil
  · rw [hlimit] at hr1 hr2
    have hlt := hr2.1
    refine ⟨hr1, by omega, by omega, fun hstop k q hq hql hf => ?_, fun hv => ?_⟩
    · by_contra hover
      have hf' := hfin' hf (by omega)
      have hend := hb3 k q hq (by omega) hf'
      exact hstop (stopsInside_of_held hfin htext (by omega) hr2 hf' hql (by omega) hend)
    · rw [← slice_append_drop hr1] at hv
      refine hv.split fun d hd => ?_
      have hneed := hr2.2.2
      have hd' : raw.getD limit 0 = d := by
        rw [hbody _ (by omega) (by omega), List.getD_eq_getElem?_getD, ← List.head?_drop, hd]
        rfl
      rw [← hd']
      exact (of_expectedLen (c := raw.getD limit 0) (by omega)).1

end Cut

/-! ## Fragments -/

section Fragments

variable {fin : Bytes}

theorem escapedClose_append {s : Bytes} (h : escapedClose s fin) (t : Bytes) :
    escapedClose (s ++ t) fin := by
  obtain ⟨k, hk⟩ := escapedClose_iff.1 h
  exact escapedClose_iff.2 ⟨k, hk.trans (List.prefix_append _ _)⟩

/-- **Fragments are unescaped on their own** when no escape reaches over the cut. -/
theorem toolTextUnescape_append {a b : Bytes}
    (h : ∀ u, u <:+ a → u ≠ [] → escapedClose (u ++ b) fin → escapedClose u fin) :
    toolTextUnescape (a ++ b) fin = toolTextUnescape a fin ++ toolTextUnescape b fin := by
  induction hn : a.length using Nat.strong_induction_on generalizing a with
  | _ n ih =>
    subst hn
    cases a with
    | nil => rfl
    | cons c a =>
      -- behind an escape the argument goes on
      have step : ∀ p a', c :: a = p ++ a' → p ≠ [] →
          toolTextUnescape (a' ++ b) fin = toolTextUnescape a' fin ++ toolTextUnescape b fin := by
        intro p a' hp hne
        refine ih a'.length ?_ (fun u hu => h u ?_) rfl
        · have := List.length_pos_iff.mpr hne
          rw [hp, List.length_append]
          omega
        · rw [hp]
          exact hu.trans (List.suffix_append p a')
      by_cases hesc : escapedClose (c :: a) fin
      · obtain ⟨k, hk⟩ := escapedClose_iff.1 hesc
        cases k with
        | zero =>
          obtain ⟨a', ha'⟩ : lit "&lt;" <+: c :: a :=
            (List.prefix_append (lit "&lt;") fin.tail).trans hk
          rw [← ha'] at hesc
          rw [← ha', toolTextUnescape_lt hesc, List.append_assoc, toolTextUnescape_lt,
            step _ a' ha'.symm (by decide), List.cons_append]
          rw [← List.append_assoc]
          exact escapedClose_append hesc b
        | succ k =>
          obtain ⟨a', ha'⟩ : lit "&amp;" <+: c :: a :=
            (List.prefix_append (lit "&amp;") (amps k ++ (lit "lt;" ++ fin.tail))).trans hk
          rw [← ha'] at hesc
          rw [← ha', toolTextUnescape_amp hesc, List.append_assoc, toolTextUnescape_amp,
            step _ a' ha'.symm (by decide), List.cons_append]
          rw [← List.append_assoc]
          exact escapedClose_append hesc b
      · have hesc' : ¬ escapedClose (c :: (a ++ b)) fin :=
          fun hc => hesc (h _ List.suffix_rfl (by simp) hc)
        rw [List.cons_append, toolTextUnescape_cons hesc', toolTextUnescape_cons hesc,
          step [c] a rfl (by simp), List.cons_append]

theorem unescape_slice {body : Bytes} {start limit : Nat} (h : start ≤ limit)
    (hl : limit ≤ body.length)
    (hclean : ∀ k q, start ≤ q → q < limit → escapeForm k fin <+: body.drop q →
      q + (escapeForm k fin).length ≤ limit) :
    toolTextUnescape (body.drop start) fin =
      toolTextUnescape (slice body start limit) fin ++ toolTextUnescape (body.drop limit) fin := by
  rw [← slice_append_drop h]
  refine toolTextUnescape_append fun u hu hne hesc => ?_
  obtain ⟨k, hk⟩ := escapedClose_iff.1 hesc
  have hpos := List.length_pos_iff.mpr hne
  have hule := hu.length_le
  rw [length_slice hl] at hule
  have hdrop : u ++ body.drop limit = body.drop (limit - u.length) := by
    obtain ⟨a, ha⟩ := hu
    have hlen : a.length + u.length = limit - start := by
      rw [← length_slice hl, ← ha, List.length_append]
    have h1 : (body.drop start).drop a.length = u ++ body.drop limit := by
      rw [← slice_append_drop h, ← ha, List.append_assoc, List.drop_left]
    rw [← h1, List.drop_drop]
    congr 1
    omega
  rw [hdrop] at hk
  have := hclean k (limit - u.length) (by omega) (by omega) hk
  refine escapedClose_iff.2 ⟨k, ?_⟩
  refine List.prefix_of_prefix_length_le hk ?_ (by rw [← escapeForm]; omega)
  rw [← hdrop]
  exact List.prefix_append u _

theorem unescape_head {s : Bytes} (h : ∀ d, s.head? = some d → isContinuation d = false) :
    ∀ d, (toolTextUnescape s fin).head? = some d → isContinuation d = false := by
  intro d hd
  cases s with
  | nil => exact absurd hd (by simp [toolTextUnescape, toolTextUnescapeFrom])
  | cons c s =>
    rw [toolTextUnescape, toolTextUnescapeFrom] at hd
    split_ifs at hd
    · obtain rfl : 38 = d := by simpa using hd
      rfl
    · obtain rfl : 60 = d := by simpa using hd
      rfl
    · obtain rfl : c = d := by simpa using hd
      exact h c rfl

theorem toolTextEscape_append (hfin : CloseTag fin) {a : Bytes} (h : ∀ c ∈ a, c ≠ 38 ∧ c ≠ 60)
    (s : Bytes) : toolTextEscape fin (a ++ s) = a ++ toolTextEscape fin s := by
  induction a with
  | nil => rfl
  | cons c a ih =>
    obtain ⟨h38, h60⟩ := h c (by simp)
    rw [List.cons_append, toolTextEscape, if_neg, ih fun d hd => h d (by simp [hd]), List.cons_append]
    rintro (hp | ⟨hh, -⟩)
    · exact hfin.marker.not_prefix_cons h60 hp
    · exact h38 (by simpa using hh)

theorem validUtf8_escape (hfin : CloseTag fin) {s : Bytes} (h : ValidUtf8 s) :
    ValidUtf8 (toolTextEscape fin s) := by
  obtain ⟨cs, rfl⟩ := h
  induction cs with
  | nil => exact validUtf8_nil
  | cons c cs ih =>
    obtain ⟨d, t, hc, -, ht, hlen⟩ := encodeChar_eq c
    rw [Tokenizer.encode_cons]
    cases t with
    | nil =>
      rw [hc, List.singleton_append, toolTextEscape]
      split_ifs
      · exact ih.append_left ⟨['&', 'l', 't', ';'], by decide⟩
      · exact ih.append_left ⟨['&', 'a', 'm', 'p', ';'], by decide⟩
      · have := ih.cons c
        rwa [hc] at this
    | cons e t =>
      rw [toolTextEscape_append hfin]
      · exact ih.cons c
      · intro x hx
        have hge : 0x80 ≤ x := by
          rw [hc] at hx
          rcases List.mem_cons.mp hx with rfl | hx
          · exact (of_expectedLen (by rw [hlen]; simp)).2
          · exact ge_of_isContinuation (ht x hx)
        constructor
        · rintro rfl
          exact absurd hge (by decide)
        · rintro rfl
          exact absurd hge (by decide)

theorem not_mem_escape {s : Bytes} (h : 0 ∉ s) : 0 ∉ toolTextEscape fin s := by
  induction s with
  | nil => exact List.not_mem_nil
  | cons c s ih =>
    rw [List.mem_cons, not_or] at h
    have := ih h.2
    rw [toolTextEscape]
    split_ifs
    · exact fun hm => (List.mem_append.mp hm).elim (by decide) this
    · exact fun hm => (List.mem_append.mp hm).elim (by decide) this
    · exact fun hm => (List.mem_cons.mp hm).elim h.1 this

end Fragments

/-! ## The stream -/

section Stream

variable {fin head s rest : Bytes}

/-- What is known of the stream of the value `s` that stands behind `head`. -/
structure ParamValue.Sending (fin head s : Bytes) (st : ParamValue) : Prop where
  pos_ge : head.length ≤ st.parsePos
  pos_le : st.closed = false → st.parsePos ≤ (head ++ toolTextEscape fin s).length
  pos_closed : st.closed = true → (head ++ toolTextEscape fin s).length ≤ st.parsePos
  fragments : st.fragments.flatten =
    slice (head ++ toolTextEscape fin s) head.length st.parsePos
  sent : ¬ StopsInside fin → (st.sent fin).flatten ++
    toolTextUnescape ((head ++ toolTextEscape fin s).drop st.parsePos) fin = s
  valid : ¬ StopsInside fin → ValidUtf8 s → (∀ f ∈ st.sent fin, ValidUtf8 f) ∧
    ValidUtf8 ((head ++ toolTextEscape fin s).drop st.parsePos) ∧
    ValidUtf8 (toolTextUnescape ((head ++ toolTextEscape fin s).drop st.parsePos) fin)

theorem sending_start (hfin : CloseTag fin) (head s : Bytes) :
    ParamValue.Sending fin head s ⟨head.length, [], false⟩ where
  pos_ge := le_rfl
  pos_le _ := by simp
  pos_closed h := by cases h
  fragments := by simp [slice]
  sent _ := by
    rw [List.drop_left]
    exact unescape_escape hfin s
  valid _ hv := by
    rw [List.drop_left, unescape_escape hfin s]
    exact ⟨by simp [ParamValue.sent], validUtf8_escape hfin hv, hv⟩

/-- **One fragment.** A cut that no escape reaches over and that leaves whole characters keeps the
stream right. -/
theorem ParamValue.Sending.emit (hnul : 0 ∉ s) {st : ParamValue}
    (h : st.Sending fin head s) {raw : Bytes} {limit : Nat}
    (hraw : slice raw st.parsePos limit = slice (head ++ toolTextEscape fin s) st.parsePos limit)
    (hle : st.parsePos ≤ limit) (hlimit : limit ≤ (head ++ toolTextEscape fin s).length)
    (hclean : ¬ StopsInside fin → ∀ k q, st.parsePos ≤ q → q < limit →
      escapeForm k fin <+: (head ++ toolTextEscape fin s).drop q →
      q + (escapeForm k fin).length ≤ limit)
    (hvalid : ValidUtf8 ((head ++ toolTextEscape fin s).drop st.parsePos) →
      ValidUtf8 (slice (head ++ toolTextEscape fin s) st.parsePos limit) ∧
        ValidUtf8 ((head ++ toolTextEscape fin s).drop limit)) :
    (st.emit raw limit).Sending fin head s ∧ (st.emit raw limit).parsePos = limit ∧
      (st.emit raw limit).closed = st.closed := by
  obtain ⟨hge, hpos, hclosed, hfrag, hsent, hv⟩ := h
  rw [ParamValue.emit]
  split_ifs with hlt
  swap
  · exact ⟨⟨hge, hpos, hclosed, hfrag, hsent, hv⟩, by omega, rfl⟩
  have hzero : 0 ∉ slice (head ++ toolTextEscape fin s) st.parsePos limit := by
    intro hm
    suffices 0 ∈ toolTextEscape fin s from not_mem_escape hnul this
    rw [slice, ← Nat.add_sub_cancel' hge, ← List.drop_drop, List.drop_left] at hm
    exact List.mem_of_mem_drop (List.mem_of_mem_take hm)
  have hcut := fun hstop => unescape_slice hle hlimit (hclean hstop)
  have hnew : emitStringValue fin (slice raw st.parsePos limit) =
      toolTextUnescape (slice (head ++ toolTextEscape fin s) st.parsePos limit) fin := by
    rw [emitStringValue, hraw, cString_eq_self hzero]
  refine ⟨⟨hge.trans hle, fun _ => hlimit, fun hc => (hclosed hc).trans hle, ?_, fun hstop => ?_,
    fun hstop hs => ?_⟩, rfl, rfl⟩
  · simp only [List.flatten_append, List.flatten_singleton]
    rw [hfrag, hraw]
    have h1 := slice_append_drop (b := head ++ toolTextEscape fin s) hge
    have h2 := slice_append_drop (b := head ++ toolTextEscape fin s) hle
    have h3 := slice_append_drop (b := head ++ toolTextEscape fin s) (hge.trans hle)
    rw [← h2, ← List.append_assoc, ← h3] at h1
    exact List.append_cancel_right h1
  · simp only [ParamValue.sent, List.map_append, List.map_cons, List.map_nil, List.flatten_append,
      List.flatten_singleton]
    rw [hnew, List.append_assoc, ← hcut hstop]
    exact hsent hstop
  · obtain ⟨hall, hbody, htext⟩ := hv hstop hs
    obtain ⟨-, hafter⟩ := hvalid hbody
    rw [hcut hstop] at htext
    obtain ⟨h1, h2⟩ := htext.split (unescape_head hafter.head)
    refine ⟨fun f hf => ?_, hafter, h2⟩
    simp only [ParamValue.sent, List.map_append, List.map_cons, List.map_nil, List.mem_append,
      List.mem_singleton] at hf
    rcases hf with hf | rfl
    · exact hall f hf
    · rw [hnew]
      exact h1

theorem cut_value (hfin : CloseTag fin) {pos : Nat} (h : head.length ≤ pos) (rest : Bytes) :
    cut ((head ++ toolTextEscape fin s).drop pos ++ (fin ++ rest)) fin =
      some ((head ++ toolTextEscape fin s).drop pos, rest) := by
  refine cut_append ?_
  have hclear := clear_escape hfin s (t := fin ++ rest) fun u hu =>
    hfin.marker.prefix_of_prefix_append hu fun d hd => by
      rw [hfin.marker.eq_cons] at hd
      exact (Option.some.inj hd).symm
  obtain ⟨i, rfl⟩ := Nat.exists_eq_add_of_le h
  rw [← List.drop_drop, List.drop_left]
  exact fun u hu => hclear u (hu.trans (List.drop_suffix _ _))

theorem ParamValue.Sending.of_closed {st : ParamValue} (h : st.Sending fin head s)
    (hc : st.closed = true) :
    st.fragments.flatten = toolTextEscape fin s ∧ (¬ StopsInside fin → (st.sent fin).flatten = s) := by
  have hpos := h.pos_closed hc
  refine ⟨?_, fun hstop => ?_⟩
  · rw [h.fragments, slice, List.drop_left, List.take_of_length_le]
    rw [List.length_append] at hpos
    omega
  · have hsent := h.sent hstop
    rw [List.drop_eq_nil_of_le hpos] at hsent
    simpa [toolTextUnescape, toolTextUnescapeFrom] using hsent

theorem ParamValue.Sending.close {st : ParamValue} (h : st.Sending fin head s)
    (hpos : st.parsePos = (head ++ toolTextEscape fin s).length) (k : Nat) :
    ParamValue.Sending fin head s
      ⟨(head ++ toolTextEscape fin s).length + k, st.fragments, true⟩ := by
  have hend : (head ++ toolTextEscape fin s).drop ((head ++ toolTextEscape fin s).length + k) =
      (head ++ toolTextEscape fin s).drop st.parsePos := by
    rw [hpos, List.drop_length, List.drop_eq_nil_of_le (by omega)]
  refine ⟨by simp; omega, fun hc => (by cases hc), fun _ => by simp, ?_, ?_, ?_⟩
  · have hfrag := h.fragments
    dsimp only at hfrag ⊢
    rw [hpos] at hfrag
    rw [hfrag, slice, slice, List.take_of_length_le, List.take_of_length_le]
    · rw [List.length_drop]
      omega
    · rw [List.length_drop]
  · rw [hend]
    exact h.sent
  · rw [hend]
    exact h.valid

theorem strstr_offer (hfin : CloseTag fin) {raw t : Bytes} {pos : Nat}
    (hge : head.length ≤ pos) (hpos : pos ≤ (head ++ toolTextEscape fin s).length)
    (hraw : raw <+: head ++ toolTextEscape fin s ++ (fin ++ rest)) (hlen : pos ≤ raw.length)
    (h : strstr (raw.drop pos) fin = some t) :
    raw.length - t.length = (head ++ toolTextEscape fin s).length ∧
      (head ++ toolTextEscape fin s).length ≤ raw.length := by
  obtain ⟨u, hu⟩ := hraw
  have hdrop : raw.drop pos ++ u = (head ++ toolTextEscape fin s).drop pos ++ (fin ++ rest) := by
    rw [← List.drop_append_of_le_length hlen, hu, List.drop_append_of_le_length hpos]
  obtain ⟨a, hat, ⟨b, rfl⟩, hclear⟩ := strstr_eq_some.1 h
  have hcut : cut (raw.drop pos) fin = some (a, b) :=
    cut_eq_some.2 ⟨by rw [hat, List.append_assoc], hclear⟩
  have ha := cut_append_right hcut u
  rw [hdrop, cut_value hfin hge] at ha
  have ha : (head ++ toolTextEscape fin s).drop pos = a := (Prod.mk.inj (Option.some.inj ha)).1
  have := congrArg List.length hat
  rw [← ha, List.length_drop, List.length_append, List.length_drop] at this
  omega

theorem length_lt_of_strstr {raw : Bytes} {pos : Nat}
    (hpos : pos ≤ (head ++ toolTextEscape fin s).length)
    (hraw : raw <+: head ++ toolTextEscape fin s ++ (fin ++ rest))
    (h : strstr (raw.drop pos) fin = none) :
    raw.length < (head ++ toolTextEscape fin s).length + fin.length := by
  by_contra hle
  refine strstr_eq_none.1 h ?_
  have hp : head ++ toolTextEscape fin s ++ fin <+: raw := by
    refine List.prefix_of_prefix_length_le ?_ hraw (by rw [List.length_append]; omega)
    rw [← List.append_assoc]
    exact List.prefix_append _ _
  obtain ⟨v, rfl⟩ := hp
  rw [List.append_assoc, List.drop_append_of_le_length hpos]
  exact ⟨_, v, by rw [List.append_assoc]⟩

/-- **One offer.** The stream stays right, and it is closed when the whole tag is offered. -/
theorem ParamValue.Sending.update (hfin : CloseTag fin) (hnul : 0 ∉ s) {st st' : ParamValue}
    (h : st.Sending fin head s) (rest : Bytes) (n : Nat)
    (hst' : st.update fin ((head ++ toolTextEscape fin s ++ (fin ++ rest)).take n) = st') :
    st'.Sending fin head s ∧
      (st.closed = true ∨ (head ++ toolTextEscape fin s).length + fin.length ≤ n →
        st'.closed = true) := by
  rw [ParamValue.update] at hst'
  split_ifs at hst' with hskip
  · subst hst'
    refine ⟨h, fun hc => hc.elim id fun hn => ?_⟩
    refine hskip.elim id fun hlen => ?_
    by_contra hopen
    have hpos := h.pos_le (by simpa using hopen)
    have := List.length_pos_iff.mpr hfin.marker.ne_nil
    simp only [List.length_take, List.length_append] at hlen hpos hn
    omega
  obtain ⟨hopen, hlen⟩ := not_or.mp hskip
  have hpos := h.pos_le (by simpa using hopen)
  have hraw := List.take_prefix n (head ++ toolTextEscape fin s ++ (fin ++ rest))
  have hrawlen := List.length_take (i := n) (l := head ++ toolTextEscape fin s ++ (fin ++ rest))
  have htake : (head ++ toolTextEscape fin s ++ (fin ++ rest)).take n =
      (head ++ toolTextEscape fin s ++ (fin ++ rest)).take
        ((head ++ toolTextEscape fin s ++ (fin ++ rest)).take n).length :=
    List.prefix_iff_eq_take.mp hraw
  generalize (head ++ toolTextEscape fin s ++ (fin ++ rest)).take n = raw at *
  cases hfind : strstr (raw.drop st.parsePos) fin with
  | some t =>
    obtain ⟨hend, hle⟩ := strstr_offer hfin h.pos_ge hpos hraw (by omega) hfind
    rw [hfind] at hst'
    dsimp only at hst'
    rw [hend] at hst'
    have hsame : slice raw st.parsePos (head ++ toolTextEscape fin s).length =
        slice (head ++ toolTextEscape fin s) st.parsePos (head ++ toolTextEscape fin s).length := by
      rw [slice_of_isPrefix hraw hle, slice, slice, List.drop_append_of_le_length hpos,
        List.take_append_of_le_length (by rw [List.length_drop])]
    obtain ⟨hsend, hat, -⟩ := h.emit hnul hsame hpos le_rfl
      (fun _ k q _ hq hf => by
        have := hf.length_le
        rw [List.length_drop] at this
        omega)
      (fun hv => by
        rw [slice, ← List.length_drop, List.take_length, List.drop_length]
        exact ⟨hv, validUtf8_nil⟩)
    subst hst'
    exact ⟨hsend.close hat fin.length, fun _ => rfl⟩
  | none =>
    have hlt := length_lt_of_strstr hpos hraw hfind
    rw [hfind] at hst'
    dsimp only at hst'
    have ho : ValueOffer fin (head ++ toolTextEscape fin s) rest st.parsePos raw.length :=
      ⟨hpos, by omega, hlt, hraw.length_le⟩
    obtain ⟨h1, hle, h2, h3, h4⟩ := safeLen_spec hfin ho (by rw [← htake])
    have hsame : slice raw st.parsePos (toolParamValueStreamSafeLen raw st.parsePos raw.length fin true) =
        slice (head ++ toolTextEscape fin s) st.parsePos
          (toolParamValueStreamSafeLen raw st.parsePos raw.length fin true) := by
      rw [slice_of_isPrefix hraw hle, ← slice_of_isPrefix (List.prefix_append _ _) h2]
    obtain ⟨hsend, -, hc⟩ := h.emit hnul hsame h1 h2 h3 h4
    subst hst'
    refine ⟨hsend, fun hn => ?_⟩
    rcases hn with hn | hn
    · exact absurd hn hopen
    · simp only [List.length_append] at hrawlen hlt hn
      omega

/-- **Every run.** The stream stays right, and it is closed once the whole tag was offered. -/
theorem sending_run (hfin : CloseTag fin) (hnul : 0 ∉ s) {st : ParamValue} (h : st.Sending fin head s)
    (rest : Bytes) (lens : List Nat) :
    (st.run fin (head ++ toolTextEscape fin s ++ (fin ++ rest)) lens).Sending fin head s ∧
      ((st.closed = true ∨ ∃ n ∈ lens, (head ++ toolTextEscape fin s).length + fin.length ≤ n) →
        (st.run fin (head ++ toolTextEscape fin s ++ (fin ++ rest)) lens).closed = true) := by
  induction lens generalizing st with
  | nil => exact ⟨h, fun hc => hc.elim id fun ⟨n, hn, _⟩ => absurd hn List.not_mem_nil⟩
  | cons n lens ih =>
    obtain ⟨hstep, hclosed⟩ := h.update hfin hnul rest n rfl
    obtain ⟨hrun, hend⟩ := ih hstep
    refine ⟨hrun, fun hc => hend ?_⟩
    rcases hc with hc | ⟨m, hm, hle⟩
    · exact .inl (hclosed (.inl hc))
    · rcases List.mem_cons.mp hm with rfl | hm
      · exact .inl (hclosed (.inr hle))
      · exact .inr ⟨m, hm, hle⟩

/-- **The body of a tool parameter is streamed as it was written.** The escape hides the closing tag and is undone.
When the escaped body and its tag are offered up to any places, in any order, the fragments are a beginning of the
escaped body, and all of it once the tag has been offered. With a tag that does not stop inside a character their
unescaped values are a beginning of the body, in whole characters when the body is in whole characters, and all
of it once the tag has been offered. -/
theorem toolBody_streamed (hfin : CloseTag fin) (hnul : 0 ∉ s) (head rest : Bytes) (lens : List Nat)
    {st : ParamValue}
    (hst : ParamValue.run fin (head ++ toolTextEscape fin s ++ (fin ++ rest))
      ⟨head.length, [], false⟩ lens = st) :
    toolTextUnescape (toolTextEscape fin s) fin = s ∧ ¬ fin <:+: toolTextEscape fin s ∧
      st.fragments.flatten <+: toolTextEscape fin s ∧
      ((∃ n ∈ lens, (head ++ toolTextEscape fin s ++ fin).length ≤ n) →
        st.closed = true ∧ st.fragments.flatten = toolTextEscape fin s) ∧
      (¬ StopsInside fin →
        (st.sent fin).flatten <+: s ∧ (ValidUtf8 s → ∀ f ∈ st.sent fin, ValidUtf8 f) ∧
        ((∃ n ∈ lens, (head ++ toolTextEscape fin s ++ fin).length ≤ n) → (st.sent fin).flatten = s)) := by
  obtain ⟨hrun, hend⟩ := sending_run hfin hnul (sending_start hfin head s) rest lens
  rw [hst] at hrun hend
  have hclosed : (∃ n ∈ lens, (head ++ toolTextEscape fin s ++ fin).length ≤ n) → st.closed = true := by
    rintro ⟨n, hn, hle⟩
    rw [List.length_append] at hle
    exact hend (.inr ⟨n, hn, hle⟩)
  refine ⟨unescape_escape hfin s, ?_, ?_, fun h => ⟨hclosed h, (hrun.of_closed (hclosed h)).1⟩,
    fun hstop => ⟨⟨_, hrun.sent hstop⟩, fun hv => (hrun.valid hstop hv).1,
      fun h => (hrun.of_closed (hclosed h)).2 hstop⟩⟩
  · have hcut := cut_escape hfin s []
    intro hinf
    obtain ⟨a, b, hab⟩ : ∃ a b, cut (toolTextEscape fin s) fin = some (a, b) := by
      cases hc : cut (toolTextEscape fin s) fin with
      | none => exact absurd hinf (cut_eq_none.1 hc)
      | some ab => exact ⟨ab.1, ab.2, rfl⟩
    rw [cut_append_right hab] at hcut
    obtain ⟨rfl, -⟩ := Prod.mk.inj (Option.some.inj hcut)
    have hlen := congrArg List.length (cut_eq_some.1 hab).1
    have := List.length_pos_iff.mpr hfin.marker.ne_nil
    rw [List.length_append, List.length_append] at hlen
    omega
  · rw [hrun.fragments, slice, List.drop_left]
    exact List.take_prefix _ _

theorem not_stopsInside {a : Bytes} {c : UInt8} (hc : c < 0x80) : ¬ StopsInside (a ++ [c]) := by
  rintro ⟨i, hi, hcont, hneed⟩
  have hlast : (a ++ [c]).getD a.length 0 = c := by
    rw [List.getD_append_right _ _ _ _ le_rfl, Nat.sub_self]
    rfl
  rw [List.length_append, List.length_singleton] at hi hcont hneed
  rcases Nat.lt_or_ge i a.length with h | h
  · have := hcont a.length h (by omega)
    rw [hlast] at this
    exact absurd (ge_of_isContinuation this) (UInt8.not_le.mpr hc)
  · obtain rfl : i = a.length := by omega
    rw [hlast] at hneed
    exact absurd (of_expectedLen (c := c) (by omega)).2 (UInt8.not_le.mpr hc)

theorem toolBody_streamed_parameter :
    ∃ st, ParamValue.run (lit "</parameter>")
        (lit "<p>" ++ lit "é&lt;/parameter>" ++ lit "</parameter>\n") ⟨3, [], false⟩ [4, 9, 20, 25, 34] = st ∧
      st.fragments = [lit "é", lit "&lt;/parameter>"] ∧ st.fragments.flatten = lit "é&lt;/parameter>" ∧
      (st.sent (lit "</parameter>")).flatten = lit "é</parameter>" := by
  have htag : CloseTag (lit "</parameter>") := ⟨⟨rfl, by decide⟩, by decide⟩
  have hoffered : ∃ n ∈ [4, 9, 20, 25, 34],
      (lit "<p>" ++ toolTextEscape (lit "</parameter>") (lit "é</parameter>") ++
        lit "</parameter>").length ≤ n := ⟨34, by decide, by decide⟩
  obtain ⟨-, -, -, hclosed, hsent⟩ := toolBody_streamed (s := lit "é</parameter>") htag (by decide)
    (lit "<p>") (lit "\n") [4, 9, 20, 25, 34] rfl
  refine ⟨_, rfl, by decide, (hclosed hoffered).2, ?_⟩
  exact (hsent (not_stopsInside (a := lit "</parameter") (c := 62) (by decide))).2.2 hoffered

/-- A tag that stops inside a character is cut in its escape. -/
theorem toolBody_streamed_splitTag : CloseTag [60, 0xc3] ∧ ValidUtf8 [60, 0xc3, 0xa9] ∧
    (ParamValue.run [60, 0xc3] (toolTextEscape [60, 0xc3] [60, 0xc3, 0xa9] ++ [60, 0xc3])
      ⟨0, [], false⟩ [5, 8]).closed = true ∧
    ((ParamValue.run [60, 0xc3] (toolTextEscape [60, 0xc3] [60, 0xc3, 0xa9] ++ [60, 0xc3])
      ⟨0, [], false⟩ [5, 8]).sent [60, 0xc3]).flatten ≠ [60, 0xc3, 0xa9] :=
  ⟨⟨⟨rfl, by decide⟩, by decide⟩, ⟨['<', 'é'], by decide⟩, by decide, by decide⟩

end Stream

end Ds4.Server
