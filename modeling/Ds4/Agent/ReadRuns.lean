import Ds4.Agent.Read

/-!
# A read and the calls of more behind it

A call takes some tokens off the file in front of it (`readLoop_spec`), and the next one goes on behind
them. Over a run the bodies are the file from the first line on, cut into parts of lines with their
labels (`reads_cover`).
-/

namespace Ds4.Agent

open Ds4.Lib

/-! ## What a call puts out -/

/-- A part of a line as it is put out, without its label. -/
def partText (bare : Bool) (p : LinePart) : Bytes :=
  if bare then rawText p.tokens else plainText p.tokens

/-- A part of a line as it is put out. -/
def partShown (bare : Bool) (p : LinePart) : Bytes :=
  (if bare then [] else lineLabel p.line (!p.continued)) ++ partText bare p

/-- What the loop adds to the body for some tokens. -/
def shown (bare : Bool) : Nat → Bool → Bool → List Token → Bytes
  | _, _, _, [] => []
  | line, labelDue, beginning, t :: ts =>
    (if labelDue && !bare then lineLabel line beginning else []) ++ (if bare then t.raw else t.plain) ++
      if t.ending then shown bare (line + 1) true true ts else shown bare line false false ts

theorem partText_cons (bare : Bool) (line : Nat) (continued : Bool) (t : Token) (ts : List Token) :
    partText bare ⟨line, continued, t :: ts⟩ =
      (if bare then t.raw else t.plain) ++ partText bare ⟨line, continued, ts⟩ := by
  cases bare <;> rfl

/-- The parts that are put out, the first of them without its label. -/
def shownOn (bare : Bool) : List LinePart → Bytes
  | [] => []
  | p :: ps => partText bare p ++ ps.flatMap (partShown bare)

theorem shown_eq (bare : Bool) (ts : List Token) :
    (∀ line beginning, shown bare line true beginning ts =
      (lineParts line (!beginning) ts).flatMap (partShown bare)) ∧
    ∀ line beginning continued, shown bare line false beginning ts =
      shownOn bare (lineParts line continued ts) := by
  induction ts with
  | nil => exact ⟨fun _ _ => rfl, fun _ _ _ => rfl⟩
  | cons t ts ih =>
    obtain ⟨ihDue, ihOn⟩ := ih
    have hempty : ∀ (line : Nat) (continued : Bool), partText bare ⟨line, continued, []⟩ = [] := by
      intro line continued
      cases bare <;> rfl
    cases ht : t.ending with
    | true =>
      refine ⟨fun line beginning => ?_, fun line beginning continued => ?_⟩
      · simp only [shown, lineParts, ht, if_true, ihDue, List.flatMap_cons, partShown, partText_cons,
          hempty]
        cases bare <;> simp
      · simp only [shown, lineParts, ht, if_true, ihDue, shownOn, partText_cons, hempty]
        simp
    | false =>
      refine ⟨fun line beginning => ?_, fun line beginning continued => ?_⟩
      · simp only [shown, lineParts, ht, Bool.false_eq_true, if_false, ihOn line false (!beginning)]
        cases h : lineParts line (!beginning) ts with
        | nil =>
          simp only [List.flatMap_cons, partShown, partText_cons, hempty, shownOn]
          cases bare <;> simp
        | cons p ps =>
          obtain ⟨hline, hcontinued⟩ := lineParts_head h
          simp only [List.flatMap_cons, partShown, partText_cons, hline, hcontinued, shownOn]
          cases bare <;> simp [partText]
      · simp only [shown, lineParts, ht, Bool.false_eq_true, if_false, ihOn line false continued]
        cases h : lineParts line continued ts with
        | nil =>
          simp only [partText_cons, hempty, shownOn]
          simp
        | cons p ps =>
          simp only [partText_cons, shownOn]
          simp [partText]

/-! ## The loops -/

/-- Tokens that the loop does not take for binary data. -/
def NoNul (ts : List Token) : Prop := ∀ t ∈ ts, t.raw.headD 0 ≠ 0

theorem noNul_tokens {s : Bytes} (h : 0 ∉ s) : NoNul (tokens s) := by
  intro t ht
  have hne := raw_ne_nil_of_mem_tokens ht
  have hsub : ∀ c ∈ t.raw, c ∈ s := by
    intro c hc
    rw [← rawText_tokens s, rawText, List.mem_flatMap]
    exact ⟨t, ht, hc⟩
  obtain ⟨c, r, hr⟩ := List.exists_cons_of_ne_nil hne
  rw [hr] at hsub ⊢
  intro hc
  have hzero : c = 0 := hc
  exact h (hzero ▸ hsub c List.mem_cons_self)

/-- What the loop keeps after some tokens. -/
structure ReadState.After (s : ReadState) (bare : Bool) (ts : List Token) (s' : ReadState) : Prop where
  body : s'.body = s.body ++ shown bare s.line s.labelDue s.beginning ts
  line : s'.line = s.line + endings ts
  beginning : s'.beginning = if ts = [] then s.beginning else !insideLine ts

theorem ReadState.After.cons {s s' : ReadState} {bare : Bool} {t : Token} {ts : List Token}
    (h : (s.push bare t).After bare ts s') : s.After bare (t :: ts) s' := by
  obtain ⟨hbody, hline, hbeginning⟩ := h
  cases ht : t.ending with
  | true =>
    simp only [ReadState.push, ht, if_true] at hbody hline hbeginning
    refine ⟨?_, ?_, ?_⟩
    · simp only [hbody, shown, ht, if_true, List.append_assoc]
    · rw [hline, endings, endings, List.countP_cons_of_pos ht]
      omega
    · rw [hbeginning, if_neg (List.cons_ne_nil _ _)]
      split_ifs with hnil
      · simp [hnil, insideLine, ht]
      · rw [← @insideLine_append [t] _ hnil]
        rfl
  | false =>
    simp only [ReadState.push, ht, Bool.false_eq_true, if_false] at hbody hline hbeginning
    refine ⟨?_, ?_, ?_⟩
    · simp only [hbody, shown, ht, Bool.false_eq_true, if_false, List.append_assoc]
    · rw [hline, endings, endings, List.countP_cons_of_neg (by simp [ht])]
    · rw [hbeginning, if_neg (List.cons_ne_nil _ _)]
      split_ifs with hnil
      · simp [hnil, insideLine, ht]
      · rw [← @insideLine_append [t] _ hnil]
        rfl

/-- **The loop takes some tokens off the front**, as long as no line number overflows. -/
theorem readLoop_spec (maxLines : Nat) (bare : Bool) {ts : List Token} (hnul : NoNul ts)
    (s : ReadState) (hline : s.line + endings ts ≤ intMax) :
    ∃ s' done rest, readLoop false maxLines bare ts s = .ok (s', rest) ∧ ts = done ++ rest ∧
      s.After bare done s' := by
  induction ts generalizing s with
  | nil => exact ⟨s, [], [], rfl, rfl, by simp [shown], by simp [endings], by simp⟩
  | cons t ts ih =>
    have hstop : s.After bare [] s := ⟨by simp [shown], by simp [endings], by simp⟩
    have hzero : t.raw.headD 0 ≠ 0 := hnul t List.mem_cons_self
    rw [readLoop]
    split_ifs with h1 h2 h3
    · exact ⟨s, [], t :: ts, rfl, rfl, hstop⟩
    · exact ⟨s, [], t :: ts, rfl, rfl, hstop⟩
    · -- an ending on the line with the largest number
      obtain ⟨ht, hmax⟩ : t.ending = true ∧ s.line = intMax := by simpa using h3
      have : endings (t :: ts) = endings ts + 1 := List.countP_cons_of_pos ht
      omega
    · have hpush : (s.push bare t).line + endings ts = s.line + endings (t :: ts) := by
        cases ht : t.ending with
        | true =>
          have : endings (t :: ts) = endings ts + 1 := List.countP_cons_of_pos ht
          simp only [ReadState.push, ht, if_true]
          omega
        | false =>
          have : endings (t :: ts) = endings ts := List.countP_cons_of_neg (by simp [ht])
          simp only [ReadState.push, ht, Bool.false_eq_true, if_false]
          omega
      obtain ⟨s', done, rest, hrun, hts, hafter⟩ :=
        ih (fun u hu => hnul u (List.mem_cons_of_mem t hu)) (s.push bare t) (by omega)
      exact ⟨s', t :: done, rest, hrun, by rw [hts]; rfl, hafter.cons⟩

theorem readLoop_progress {maxLines : Nat} {bare : Bool} {ts done rest : List Token}
    {s s' : ReadState} (hmax : 0 < maxLines) (hlines : s.lines = 0) (hbody : s.body = [])
    (hts : ts = done ++ rest) (hnul : NoNul ts) (hne : ts ≠ [])
    (h : readLoop false maxLines bare ts s = .ok (s', rest)) : done ≠ [] := by
  rintro rfl
  obtain rfl : ts = rest := hts
  obtain ⟨t, ts, rfl⟩ := List.exists_cons_of_ne_nil hne
  have hfull : bodyFull s.body (t.raw.headD 0) = false := by
    simp [bodyFull, hbody, readBodyLimit]
  rw [readLoop, if_neg (by simp [hlines]; omega), if_neg (Bool.eq_false_iff.mp hfull),
    if_neg (hnul t List.mem_cons_self)] at h
  split_ifs at h
  have hlen : ∀ (ts rest : List Token) (s s' : ReadState),
      readLoop false maxLines bare ts s = .ok (s', rest) → rest.length ≤ ts.length := by
    intro ts
    induction ts with
    | nil =>
      intro rest s s' h
      obtain ⟨-, rfl⟩ := Prod.mk.inj (Except.ok.inj h)
      exact le_rfl
    | cons t ts ih =>
      intro rest s s' h
      rw [readLoop] at h
      split_ifs at h
      · obtain ⟨-, rfl⟩ := Prod.mk.inj (Except.ok.inj h)
        exact le_rfl
      · obtain ⟨-, rfl⟩ := Prod.mk.inj (Except.ok.inj h)
        exact le_rfl
      · exact (ih _ _ _ h).trans (Nat.le_succ _)
  have := hlen _ _ _ _ h
  simp at this

theorem skipLoop_spec {startLine line : Nat} (hle : line ≤ startLine) (ts : List Token) :
    ∃ front rest, skipLoop startLine line ts = (line + endings front, rest) ∧ ts = front ++ rest ∧
      rest = afterLines (startLine - line) ts ∧
      (rest ≠ [] → line + endings front = startLine ∧ (front = [] ∨ insideLine front = false)) := by
  induction ts generalizing line with
  | nil => exact ⟨[], [], by simp [skipLoop, endings], rfl, by cases startLine - line <;> rfl, by simp⟩
  | cons t ts ih =>
    rw [skipLoop]
    by_cases hlt : line < startLine
    · rw [if_pos hlt]
      obtain ⟨k, hk⟩ : ∃ k, startLine - line = k + 1 := ⟨startLine - line - 1, by omega⟩
      cases ht : t.ending with
      | true =>
        obtain ⟨front, rest, hrun, hts, hrest, hend⟩ := @ih (line + 1) (by omega)
        have hcount : endings (t :: front) = endings front + 1 := List.countP_cons_of_pos ht
        refine ⟨t :: front, rest, ?_, by rw [hts]; rfl, ?_, fun hne => ?_⟩
        · rw [if_pos rfl, hrun, hcount]
          congr 1
          omega
        · rw [hk, afterLines, if_pos ht, hrest]
          congr 1
          omega
        · obtain ⟨hline, hfront⟩ := hend hne
          refine ⟨by omega, .inr ?_⟩
          rcases hfront with rfl | hfront
          · simp [insideLine, ht]
          · by_cases hnil : front = []
            · simp [hnil, insideLine, ht]
            · rw [← hfront]
              exact @insideLine_append [t] _ hnil
      | false =>
        obtain ⟨front, rest, hrun, hts, hrest, hend⟩ := ih hle
        have hcount : endings (t :: front) = endings front := List.countP_cons_of_neg (by simp [ht])
        refine ⟨t :: front, rest, ?_, by rw [hts]; rfl, ?_, fun hne => ?_⟩
        · rw [if_neg (by simp), hrun, hcount]
        · rw [hk, afterLines, if_neg (by simp [ht]), hrest, hk]
        · obtain ⟨hline, hfront⟩ := hend hne
          refine ⟨by omega, .inr ?_⟩
          rcases hfront with rfl | hfront
          · simp [endings] at hline
            omega
          · by_cases hnil : front = []
            · simp [hnil, endings] at hline
              omega
            · rw [← hfront]
              exact @insideLine_append [t] _ hnil
    · rw [if_neg hlt]
      refine ⟨[], t :: ts, by simp [endings], rfl, ?_, fun _ => ⟨?_, .inl rfl⟩⟩
      · rw [show startLine - line = 0 by omega]
        rfl
      · simp [endings]
        omega

/-! ## One call -/

/-- The calls on the file succeed. -/
structure FileCalls.Clean (calls : FileCalls) : Prop where
  opened : calls.openError = none
  seek : calls.seek = true
  read : calls.read = true
  tell : calls.tell = true
  peek : calls.peek = true

/-- **What a call reads** from the tokens in front of it. -/
theorem readLoop_start {maxLines line : Nat} (bare midLine : Bool) {ts : List Token} (hnul : NoNul ts)
    (hmax : 0 < maxLines) (hline : line + endings ts ≤ intMax) :
    ∃ s done rest, readLoop false maxLines bare ts ⟨[], line, 0, !midLine, true, 0⟩ = .ok (s, rest) ∧
      ts = done ++ rest ∧ s.body = (lineParts line midLine done).flatMap (partShown bare) ∧
      s.line = line + endings done ∧
      (!s.beginning) = (if done = [] then midLine else insideLine done) ∧ (ts ≠ [] → done ≠ []) := by
  obtain ⟨s, done, rest, hrun, hts, hbody, hline', hbeginning⟩ :=
    readLoop_spec maxLines bare hnul ⟨[], line, 0, !midLine, true, 0⟩ hline
  refine ⟨s, done, rest, hrun, hts, ?_, hline', ?_, fun hne =>
    readLoop_progress hmax rfl rfl hts hnul hne hrun⟩
  · rw [hbody, List.nil_append, (shown_eq bare done).1, Bool.not_not]
  · rw [hbeginning]
    split_ifs <;> simp

/-- The report of a call and where the next one goes on. -/
def callEnd (path : String) (startLine : Nat) (bare : Bool) (front rest : List Token) (s : ReadState) :
    ReadReport × More :=
  (⟨path, startLine, s.lastLine, bare, s.body, !rest.isEmpty, s.line, (rawText front).length,
      !s.beginning⟩,
    { agentWorkerSetMore (if !rest.isEmpty then some path else none) (if !rest.isEmpty then s.line else 0)
        bare with
      byteOffset := (rawText front).length, midLine := !s.beginning })

theorem length_sub_rawText {s : Bytes} {front rest : List Token} (h : tokens s = front ++ rest) :
    s.length - (rawText rest).length = (rawText front).length := by
  have hs : s = rawText front ++ rawText rest := by rw [← rawText_append, ← h, rawText_tokens]
  rw [hs, List.length_append]
  omega

theorem pos_agentParse {s : Option Bytes} {default : Int} (hd : 1 ≤ default) :
    1 ≤ agentParseIntDefault s default 1 intMax := by
  unfold agentParseIntDefault
  cases strtol (s.getD []) with
  | none => exact hd
  | some x =>
    dsimp only
    have hmax : (1 : Int) ≤ intMax := by decide
    split_ifs <;> omega

theorem one_le_defaultLines (ctx : Int) : (1 : Int) ≤ agentReadDefaultLines ctx := by
  unfold agentReadDefaultLines
  split_ifs <;> decide

theorem agentToolRead_spec {calls : FileCalls} (hclean : calls.Clean) (hnul : 0 ∉ calls.content)
    (hlines : endings (tokens calls.content) < intMax) {path : String} (hpath : path ≠ "")
    (more : More) (ctx : Int) {whole : Option Bytes} (hwhole : agentParseBoolDefault whole false = false)
    (startLine maxLines raw : Option Bytes) :
    ∃ front done rest s, tokens calls.content = front ++ done ++ rest ∧
      done ++ rest = afterLines ((agentParseIntDefault startLine 1 1 intMax).toNat - 1)
        (tokens calls.content) ∧
      (done ++ rest ≠ [] → 1 + endings front = (agentParseIntDefault startLine 1 1 intMax).toNat ∧
        insideLine front = false) ∧
      (done ++ rest ≠ [] → done ≠ []) ∧
      s.body = (lineParts (1 + endings front) false done).flatMap
        (partShown (agentParseBoolDefault raw false)) ∧
      s.line = 1 + endings (front ++ done) ∧ (!s.beginning) = (if done = [] then false else insideLine done) ∧
      agentToolRead calls more ctx (some path) whole startLine maxLines raw =
        (.ok (callEnd path (agentParseIntDefault startLine 1 1 intMax).toNat
            (agentParseBoolDefault raw false) (front ++ done) rest s).1,
          (callEnd path (agentParseIntDefault startLine 1 1 intMax).toNat
            (agentParseBoolDefault raw false) (front ++ done) rest s).2) := by
  have hstart : 1 ≤ agentParseIntDefault startLine 1 1 intMax := pos_agentParse le_rfl
  have hcount : 1 ≤ agentParseIntDefault maxLines (agentReadDefaultLines ctx) 1 intMax :=
    pos_agentParse (one_le_defaultLines ctx)
  obtain ⟨front, ts, hskip, hts, hafter, hfirst⟩ :=
    @skipLoop_spec (agentParseIntDefault startLine 1 1 intMax).toNat 1 (by omega) (tokens calls.content)
  have hsplit : endings (tokens calls.content) = endings front + endings ts := by
    rw [hts, endings_append]
  obtain ⟨s, done, rest, hrun, hdone, hbody, hline, hbeginning, hne⟩ := @readLoop_start
    (agentParseIntDefault maxLines (agentReadDefaultLines ctx) 1 intMax).toNat (1 + endings front)
    (agentParseBoolDefault raw false) false ts
    (fun t ht => noNul_tokens hnul t (hts ▸ List.mem_append_right front ht)) (by omega) (by omega)
  refine ⟨front, done, rest, s, by rw [hts, hdone, List.append_assoc], by rw [← hdone, hafter],
    fun h => ?_, fun h => hne (hdone ▸ h), hbody, ?_, hbeginning, ?_⟩
  · obtain ⟨h1, h2⟩ := hfirst (hdone ▸ h)
    refine ⟨h1, ?_⟩
    rcases h2 with rfl | h2
    · rfl
    · exact h2
  · rw [hline, endings_append]
    omega
  · have hoff := @length_sub_rawText calls.content (front ++ done) rest
      (by rw [hts, hdone, List.append_assoc])
    have hopened : readOpened calls path (agentParseIntDefault startLine 1 1 intMax).toNat
        (agentParseIntDefault maxLines (agentReadDefaultLines ctx) 1 intMax).toNat false
        (agentParseBoolDefault raw false) 0 false =
        .ok (callEnd path (agentParseIntDefault startLine 1 1 intMax).toNat
          (agentParseBoolDefault raw false) (front ++ done) rest s).1 := by
      rw [Bool.not_false] at hrun
      simp only [readOpened, lt_irrefl, decide_false, Bool.false_and, Bool.false_eq_true, if_false, hskip,
        Bool.not_false, hrun, hclean.read, hclean.tell, hclean.peek, Bool.not_true, Bool.or_self, hoff,
        callEnd]
    simp only [agentToolRead, agentReadRangeFrom, Option.getD_some, hpath, if_false, hclean.opened,
      hwhole, if_neg (by omega : ¬ agentParseIntDefault startLine 1 1 intMax < 1),
      if_neg (by omega : ¬ agentParseIntDefault maxLines (agentReadDefaultLines ctx) 1 intMax ≤ 0),
      hopened, if_true]
    rfl

theorem agentToolMore_spec {calls : FileCalls} (hclean : calls.Clean) (hnul : 0 ∉ calls.content)
    (hlines : endings (tokens calls.content) < intMax) {path : String} (hpath : path ≠ "")
    {front ts : List Token} (hts : tokens calls.content = front ++ ts) (hfront : front ≠ [])
    (hne : ts ≠ []) (bare : Bool) (ctx : Int) (count : Option Bytes) :
    ∃ done rest s, ts = done ++ rest ∧ done ≠ [] ∧
      s.body = (lineParts (1 + endings front) (insideLine front) done).flatMap (partShown bare) ∧
      s.line = 1 + endings (front ++ done) ∧ (!s.beginning) = insideLine (front ++ done) ∧
      agentToolMore calls ⟨path, 1 + endings front, bare, true, (rawText front).length,
          insideLine front⟩ ctx count =
        (.ok (callEnd path (1 + endings front) bare (front ++ done) rest s).1,
          (callEnd path (1 + endings front) bare (front ++ done) rest s).2) := by
  have hcount : 1 ≤ agentParseIntDefault count (agentReadDefaultLines ctx) 1 intMax :=
    pos_agentParse (one_le_defaultLines ctx)
  have hsplit : endings (tokens calls.content) = endings front + endings ts := by
    rw [hts, endings_append]
  obtain ⟨s, done, rest, hrun, hdone, hbody, hline, hbeginning, hprogress⟩ := @readLoop_start
    (agentParseIntDefault count (agentReadDefaultLines ctx) 1 intMax).toNat (1 + endings front) bare
    (insideLine front) ts
    (fun t ht => noNul_tokens hnul t (hts ▸ List.mem_append_right front ht)) (by omega) (by omega)
  have hdone' := hprogress hne
  have htext : calls.content = rawText front ++ rawText ts := by
    rw [← rawText_append, ← hts, rawText_tokens]
  have hpos : 0 < (rawText front).length := by
    obtain ⟨t, front', rfl⟩ := List.exists_cons_of_ne_nil hfront
    have := raw_ne_nil_of_mem_tokens (s := calls.content) (t := t) (by rw [hts]; simp)
    have := List.length_pos_iff.mpr this
    rw [rawText_cons, List.length_append]
    omega
  have hdrop : tokens (calls.content.drop (rawText front).length) = ts := by
    have : calls.content.drop (rawText front).length = rawText ts := by
      conv_lhs => rw [htext]
      exact List.drop_left
    rw [this, (tokens_of_append hts).2]
  refine ⟨done, rest, s, hdone, hdone', hbody, ?_, ?_, ?_⟩
  · rw [hline, endings_append]
    omega
  · rw [hbeginning, if_neg hdone', insideLine_append hdone']
  · have hoff := @length_sub_rawText calls.content (front ++ done) rest
      (by rw [hts, hdone, List.append_assoc])
    have hopened : readOpened calls path (1 + endings front)
        (agentParseIntDefault count (agentReadDefaultLines ctx) 1 intMax).toNat false bare
        (rawText front).length (insideLine front) =
        .ok (callEnd path (1 + endings front) bare (front ++ done) rest s).1 := by
      simp only [readOpened, hpos, decide_true, Bool.true_and, hclean.seek, Bool.not_true,
        Bool.false_eq_true, if_false, if_true, hdrop, hrun, hclean.read, hclean.tell, hclean.peek,
        Bool.or_self, Bool.false_and, hoff, callEnd]
    simp only [agentToolMore, agentReadRangeFrom, Option.getD_some, hpath, if_false, hclean.opened,
      Bool.not_true, Bool.false_eq_true,
      if_neg (by omega : ¬ ((1 + endings front : Nat) : Int) < 1),
      if_neg (by omega : ¬ agentParseIntDefault count (agentReadDefaultLines ctx) 1 intMax ≤ 0),
      Int.toNat_natCast, hopened, if_true]
    rfl

/-! ## Runs -/

/-- The reports of a `read` of some lines and of the calls of `more` behind it. -/
inductive Reads (calls : FileCalls) (path : String) (startLine : Nat) (bare : Bool) :
    List ReadReport → More → Prop
  | read {more more' : More} {ctx : Int} {whole start count raw : Option Bytes} {r : ReadReport} :
      agentParseBoolDefault whole false = false → agentParseBoolDefault raw false = bare →
      (agentParseIntDefault start 1 1 intMax).toNat = startLine →
      agentToolRead calls more ctx (some path) whole start count raw = (.ok r, more') →
      Reads calls path startLine bare [r] more'
  | more {reports : List ReadReport} {more more' : More} {ctx : Int} {count : Option Bytes}
      {r : ReadReport} :
      Reads calls path startLine bare reports more → more.valid = true →
      agentToolMore calls more ctx count = (.ok r, more') →
      Reads calls path startLine bare (reports ++ [r]) more'

/-- How far a run has come: `done` has been read, and `rest` is in front of the next call. -/
structure Progress (file : Bytes) (path : String) (startLine : Nat) (bare : Bool)
    (reports : List ReadReport) (more : More) (front done rest : List Token)
    (lines : List (List LinePart)) : Prop where
  cut : tokens file = front ++ (done ++ rest)
  start : done ++ rest = afterLines (startLine - 1) (tokens file)
  first : done ++ rest ≠ [] → 1 + endings front = startLine ∧ insideLine front = false
  begun : done ++ rest ≠ [] → done ≠ []
  bodies : reports.map ReadReport.body = lines.map fun ps => ps.flatMap (partShown bare)
  parts : lines.flatten.flatMap LinePart.tokens = done
  fits : ∀ a p b, lines.flatten = a ++ p :: b → p.Fits startLine false (a.flatMap LinePart.tokens)
  count : done ≠ [] → reports.length ≤ done.length
  offset : reports.getLast?.map ReadReport.nextOffset = some (rawText (front ++ done)).length
  valid : more.valid = !rest.isEmpty
  more : rest ≠ [] → more = ⟨path, 1 + endings (front ++ done), bare, true,
    (rawText (front ++ done)).length, insideLine (front ++ done)⟩

theorem callEnd_more {path : String} {bare : Bool} {startLine : Nat} {front rest : List Token}
    {s : ReadState} (hpath : path ≠ "") (hline : s.line = 1 + endings front) :
    (callEnd path startLine bare front rest s).2.valid = (!rest.isEmpty) ∧
      (rest ≠ [] → (!s.beginning) = insideLine front → (callEnd path startLine bare front rest s).2 =
        ⟨path, 1 + endings front, bare, true, (rawText front).length, insideLine front⟩) := by
  cases rest with
  | nil => exact ⟨rfl, fun h => absurd rfl h⟩
  | cons t ts =>
    have hpos : 0 < s.line := by omega
    refine ⟨by simp [callEnd, agentWorkerSetMore, hpath, hpos], fun _ hbeginning => ?_⟩
    simp [callEnd, agentWorkerSetMore, hpath, hline, hbeginning]

theorem progress_read {calls : FileCalls} (hclean : calls.Clean) (hnul : 0 ∉ calls.content)
    (hlines : endings (tokens calls.content) < intMax) {path : String} (hpath : path ≠ "")
    (more : More) (ctx : Int) {whole : Option Bytes} (hwhole : agentParseBoolDefault whole false = false)
    (start count raw : Option Bytes) :
    ∃ r more' front done rest lines,
      agentToolRead calls more ctx (some path) whole start count raw = (.ok r, more') ∧
      Progress calls.content path (agentParseIntDefault start 1 1 intMax).toNat
        (agentParseBoolDefault raw false) [r] more' front done rest lines := by
  obtain ⟨front, done, rest, s, hcut, hafter, hfirst, hbegun, hbody, hline, hbeginning, hrun⟩ :=
    agentToolRead_spec hclean hnul hlines hpath more ctx hwhole start count raw
  obtain ⟨hvalid, hmore⟩ := @callEnd_more _ (agentParseBoolDefault raw false)
    (agentParseIntDefault start 1 1 intMax).toNat _ rest _ hpath hline
  refine ⟨_, _, front, done, rest, [lineParts (1 + endings front) false done], hrun, ?_⟩
  have hempty : ∀ {P : Prop}, (done ≠ [] → P) → done ++ rest ≠ [] → P := fun h hne => h (hbegun hne)
  refine
    { cut := by rw [hcut, List.append_assoc], start := hafter, first := hfirst, begun := hbegun,
      bodies := by simp [callEnd, hbody], parts := by simp [lineParts_tokens], fits := ?_,
      count := fun h => List.length_pos_iff.mpr h, offset := rfl, valid := hvalid, more := ?_ }
  · intro a p b hab
    rw [List.flatten_cons, List.flatten_nil, List.append_nil] at hab
    have hfits := lineParts_fits hab
    have hne : done ≠ [] := by
      rintro rfl
      simp at hab
    have hnumber := (hfirst (by simp [hne])).1
    exact ⟨by rw [hfits.number, hnumber], hfits.begins, hfits.nonempty, hfits.one⟩
  · intro hrest
    have hne : done ≠ [] := hbegun (by simp [hrest])
    refine hmore hrest ?_
    rw [hbeginning, if_neg hne, insideLine_append hne]

theorem Progress.step {calls : FileCalls} (hclean : calls.Clean) (hnul : 0 ∉ calls.content)
    (hlines : endings (tokens calls.content) < intMax) {path : String} (hpath : path ≠ "")
    {startLine : Nat} {bare : Bool} {reports : List ReadReport} {more : More}
    {front done rest : List Token} {lines : List (List LinePart)}
    (h : Progress calls.content path startLine bare reports more front done rest lines)
    (hvalid : more.valid = true) (ctx : Int) (count : Option Bytes) :
    ∃ r more' done' rest' lines', agentToolMore calls more ctx count = (.ok r, more') ∧ done' ≠ [] ∧
      r.nextOffset = (rawText (front ++ (done ++ done'))).length ∧
      Progress calls.content path startLine bare (reports ++ [r]) more' front (done ++ done') rest'
        (lines ++ [lines']) := by
  have hrest : rest ≠ [] := by
    have := h.valid
    rw [hvalid] at this
    simpa [List.isEmpty_iff] using this.symm
  have hdone : done ≠ [] := h.begun (by simp [hrest])
  have hmore := h.more hrest
  obtain ⟨done', rest', s, hcut, hdone', hbody, hline, hbeginning, hrun⟩ :=
    @agentToolMore_spec _ hclean hnul hlines _ hpath (front ++ done) rest
      (by rw [h.cut, List.append_assoc]) (by simp [hdone]) hrest bare ctx count
  obtain ⟨hvalid', hmore'⟩ := @callEnd_more _ bare (1 + endings (front ++ done)) _ rest' _ hpath hline
  rw [← hmore] at hrun
  rw [List.append_assoc] at hline hbeginning hrun hvalid' hmore'
  refine ⟨_, _, done', rest',
    lineParts (1 + endings (front ++ done)) (insideLine (front ++ done)) done', hrun, hdone', rfl, ?_⟩
  have hfirst := h.first (by simp [hdone])
  refine
    { cut := by rw [h.cut, hcut, List.append_assoc],
      start := by rw [← h.start, hcut, List.append_assoc],
      first := fun _ => hfirst, begun := fun _ => by simp [hdone],
      bodies := by simp [h.bodies, callEnd, hbody],
      parts := by simp [h.parts, lineParts_tokens], fits := ?_, count := fun _ => ?_,
      offset := by simp [callEnd], valid := hvalid', more := fun hne => hmore' hne hbeginning }
  · intro a p b hab
    rw [List.flatten_append, List.flatten_cons, List.flatten_nil, List.append_nil] at hab
    rcases List.append_eq_append_iff.mp hab with ⟨a', ha, hb⟩ | ⟨b', ha, hb⟩
    · -- the part is one of the new call
      have hfits := lineParts_fits hb
      have hfront : a.flatMap LinePart.tokens = done ++ a'.flatMap LinePart.tokens := by
        rw [ha, List.flatMap_append, h.parts]
      rw [hfront]
      refine ⟨?_, ?_, hfits.nonempty, hfits.one⟩
      · have := hfirst.1
        rw [hfits.number, endings_append, endings_append]
        omega
      · have hne : done ++ a'.flatMap LinePart.tokens ≠ [] := by simp [hdone]
        rw [if_neg hne, hfits.begins]
        by_cases hnil : a'.flatMap LinePart.tokens = []
        · rw [if_pos hnil, hnil, List.append_nil, insideLine_append hdone]
        · rw [if_neg hnil, insideLine_append hnil]
    · cases b' with
      | nil =>
        rw [List.nil_append] at hb
        rw [List.append_nil] at ha
        have hfits := lineParts_fits (a := []) hb.symm
        rw [← ha, h.parts]
        refine ⟨?_, ?_, hfits.nonempty, hfits.one⟩
        · have := hfirst.1
          rw [hfits.number, endings_append]
          simp [endings] at this ⊢
          omega
        · rw [hfits.begins, if_neg hdone, List.flatMap_nil, if_pos rfl, insideLine_append hdone]
      | cons q b' =>
        obtain ⟨rfl, -⟩ := List.cons.inj hb
        exact h.fits a p b' ha
  · have := h.count hdone
    have := List.length_pos_iff.mpr hdone'
    simp only [List.length_append, List.length_singleton]
    omega

theorem reads_progress {calls : FileCalls} (hclean : calls.Clean) (hnul : 0 ∉ calls.content)
    (hlines : endings (tokens calls.content) < intMax) {path : String} (hpath : path ≠ "")
    {startLine : Nat} {bare : Bool} {reports : List ReadReport} {more : More}
    (h : Reads calls path startLine bare reports more) :
    ∃ front done rest lines,
      Progress calls.content path startLine bare reports more front done rest lines := by
  induction h with
  | @read more more' ctx whole start count raw r hwhole hraw hstart hrun =>
    obtain ⟨r', more'', front, done, rest, lines, hrun', hprogress⟩ :=
      progress_read hclean hnul hlines hpath more ctx hwhole start count raw
    obtain ⟨hr, rfl⟩ := Prod.mk.inj (hrun'.symm.trans hrun)
    obtain rfl := Except.ok.inj hr
    subst hraw hstart
    exact ⟨front, done, rest, lines, hprogress⟩
  | @more reports more more' ctx count r _ hvalid hrun ih =>
    obtain ⟨front, done, rest, lines, hprogress⟩ := ih
    obtain ⟨r', more'', done', rest', lines', hrun', -, -, hstep⟩ :=
      hprogress.step hclean hnul hlines hpath hvalid ctx count
    obtain ⟨hr, rfl⟩ := Prod.mk.inj (hrun'.symm.trans hrun)
    obtain rfl := Except.ok.inj hr
    exact ⟨front, done ++ done', rest', lines ++ [lines'], hstep⟩

/-! ## Coverage -/

/-- The bytes of a file from an offset up to another. -/
def fileSlice (s : Bytes) (start stop : Nat) : Bytes := (s.drop start).take (stop - start)

theorem fileSlice_rawText {s : Bytes} {front done rest : List Token}
    (h : tokens s = front ++ (done ++ rest)) :
    fileSlice s (rawText front).length (rawText (front ++ done)).length = rawText done := by
  have hs : s = rawText front ++ (rawText done ++ rawText rest) := by
    rw [← rawText_append, ← rawText_append, ← h, rawText_tokens]
  rw [fileSlice, hs, List.drop_left, rawText_append, List.length_append, Nat.add_sub_cancel_left,
    List.take_left]

theorem flatMap_partText (ps : List LinePart) :
    ps.flatMap (partText true) = rawText (ps.flatMap LinePart.tokens) ∧
      ps.flatMap (partText false) = plainText (ps.flatMap LinePart.tokens) := by
  induction ps with
  | nil => exact ⟨rfl, rfl⟩
  | cons p ps ih =>
    simp only [List.flatMap_cons, ih.1, ih.2, rawText_append, plainText_append]
    exact ⟨rfl, rfl⟩

theorem length_le_rawText {s : Bytes} {front done rest : List Token}
    (h : tokens s = front ++ (done ++ rest)) : done.length ≤ (rawText done).length := by
  have hraw : ∀ t ∈ done, 1 ≤ t.raw.length := fun t ht =>
    List.length_pos_iff.mpr (raw_ne_nil_of_mem_tokens (s := s) (by rw [h]; simp [ht]))
  clear h
  induction done with
  | nil => exact le_rfl
  | cons t done ih =>
    have := hraw t List.mem_cons_self
    have := ih fun u hu => hraw u (List.mem_cons_of_mem t hu)
    rw [rawText_cons, List.length_append, List.length_cons]
    omega

/-- A part of a line is labelled with its line: the number of the line at the offset where it begins, and
whether it begins inside of that line. -/
structure Labelled (file : Bytes) (offset : Nat) (p : LinePart) : Prop where
  number : p.line = 1 + endings (tokens (file.take offset))
  begins : p.continued = insideLine (tokens (file.take offset))
  nonempty : p.tokens ≠ []
  one : ∀ t ∈ p.tokens.dropLast, t.ending = false

/-- **A read and the calls of more behind it cover the file**, when it has fewer line endings than
`INT_MAX`. -/
theorem reads_cover {calls : FileCalls} (hclean : calls.Clean) (hnul : 0 ∉ calls.content)
    (hlines : endings (tokens calls.content) < intMax) {path : String} (hpath : path ≠ "") :
    (∀ more ctx whole start count raw, agentParseBoolDefault whole false = false →
      ∃ r more', agentToolRead calls more ctx (some path) whole start count raw = (.ok r, more')) ∧
    ∀ startLine bare reports more, Reads calls path startLine bare reports more →
      ∃ (stop : Nat) (lines : List (List LinePart)),
        reports.getLast?.map ReadReport.nextOffset = some stop ∧
        reports.map ReadReport.body = lines.map (fun ps => ps.flatMap (partShown bare)) ∧
        (bare = true → reports.flatMap ReadReport.body =
          fileSlice calls.content (lineStart calls.content startLine) stop) ∧
        lines.flatten.flatMap (partText false) =
          plainText (tokens (fileSlice calls.content (lineStart calls.content startLine) stop)) ∧
        (∀ a p b, lines.flatten = a ++ p :: b → Labelled calls.content
          (lineStart calls.content startLine + (a.flatMap (partText true)).length) p) ∧
        (more.valid = true ↔ stop < calls.content.length) ∧
        (more.valid = true →
          reports.length ≤ stop - lineStart calls.content startLine ∧
          ∀ ctx count, ∃ r more', agentToolMore calls more ctx count = (.ok r, more') ∧
            stop < r.nextOffset) := by
  refine ⟨fun more ctx whole start count raw hwhole => ?_, fun startLine bare reports more hreads => ?_⟩
  · obtain ⟨r, more', -, -, -, -, hrun, -⟩ :=
      progress_read hclean hnul hlines hpath more ctx hwhole start count raw
    exact ⟨r, more', hrun⟩
  obtain ⟨front, done, rest, lines, h⟩ := reads_progress hclean hnul hlines hpath hreads
  have hstart : lineStart calls.content startLine = (rawText front).length := by
    rw [lineStart, ← h.start, length_sub_rawText h.cut]
  have hslice := fileSlice_rawText h.cut
  have htokens : tokens (rawText done) = done := by
    have hrest := (tokens_of_append h.cut).2
    exact (tokens_of_append hrest).1
  have hlength : calls.content.length = (rawText (front ++ done)).length + (rawText rest).length := by
    conv_lhs => rw [← rawText_tokens calls.content, h.cut]
    simp only [rawText_append, List.length_append]
    omega
  have hmore : more.valid = true ↔ rest ≠ [] := by
    rw [h.valid]
    simp
  have hrest : rest ≠ [] ↔ 0 < (rawText rest).length := by
    constructor
    · intro hne
      obtain ⟨t, ts, rfl⟩ := List.exists_cons_of_ne_nil hne
      have := raw_ne_nil_of_mem_tokens (s := calls.content) (t := t) (by rw [h.cut]; simp)
      have := List.length_pos_iff.mpr this
      rw [rawText_cons, List.length_append]
      omega
    · rintro hpos rfl
      simp at hpos
  rw [hstart]
  refine ⟨_, lines, h.offset, h.bodies, fun hbare => ?_, ?_, ?_, ?_, fun hvalid => ⟨?_, ?_⟩⟩
  · subst hbare
    have hraw : partShown true = partText true := by
      funext p
      simp [partShown]
    have hflat : ∀ lines : List (List LinePart), (lines.map fun ps => ps.flatMap (partText true)).flatten =
        lines.flatten.flatMap (partText true) := by
      intro lines
      induction lines with
      | nil => rfl
      | cons ps lines ih => simp [ih]
    rw [hslice, ← h.parts, ← (flatMap_partText _).1, List.flatMap_def, h.bodies, hraw, hflat]
  · rw [hslice, htokens, (flatMap_partText _).2, h.parts]
  · intro a p b hab
    have hfits := h.fits a p b hab
    -- the text in front of the part is cut between two tokens
    obtain ⟨after, hafter⟩ : ∃ after, tokens calls.content =
        (front ++ a.flatMap LinePart.tokens) ++ after := by
      refine ⟨(p :: b).flatMap LinePart.tokens ++ rest, ?_⟩
      rw [h.cut, ← h.parts, hab, List.flatMap_append]
      simp only [List.append_assoc]
    have htake : calls.content.take ((rawText front).length +
        (a.flatMap (partText true)).length) = rawText (front ++ a.flatMap LinePart.tokens) := by
      have hs : calls.content = rawText (front ++ a.flatMap LinePart.tokens) ++ rawText after := by
        rw [← rawText_append, ← hafter, rawText_tokens]
      conv_lhs => rw [hs]
      rw [(flatMap_partText a).1, ← List.length_append, ← rawText_append, List.take_left]
    have hdone : done ≠ [] := by
      rw [← h.parts, hab]
      simp [hfits.nonempty]
    obtain ⟨hfirst, hinside⟩ := h.first (by simp [hdone])
    have htok := (tokens_of_append hafter).1
    refine ⟨?_, ?_, hfits.nonempty, hfits.one⟩
    · rw [htake, htok, hfits.number, endings_append]
      omega
    · rw [htake, htok, hfits.begins]
      by_cases hnil : a.flatMap LinePart.tokens = []
      · rw [if_pos hnil, hnil, List.append_nil, hinside]
      · rw [if_neg hnil, insideLine_append hnil]
  · rw [hmore, hrest]
    omega
  · have hne := hmore.mp hvalid
    have hdone := h.begun (by simp [hne])
    have := h.count hdone
    have := length_le_rawText h.cut
    rw [rawText_append, List.length_append]
    omega
  · intro ctx count
    obtain ⟨r, more', done', rest', lines', hrun, hdone', hoffset, hstep⟩ :=
      h.step hclean hnul hlines hpath hvalid ctx count
    refine ⟨r, more', hrun, ?_⟩
    have hcut := hstep.cut
    have : done'.length ≤ (rawText done').length :=
      @length_le_rawText _ (front ++ done) _ rest'
        (by rw [hcut]; simp only [List.append_assoc])
    have := List.length_pos_iff.mpr hdone'
    rw [hoffset]
    simp only [rawText_append, List.length_append]
    omega

/-- A file of two lines. -/
def twoLines : FileCalls := ⟨none, lit "a\nb", true, true, true, true, ""⟩

/-- A read of the first line and a call of more read the whole file. -/
theorem reads_cover_two :
    ∃ r₁ more₁ r₂ more₂,
      agentToolRead twoLines ⟨"", 0, false, false, 0, false⟩ 0 (some "f") none none (some (lit "1"))
        (some (lit "true")) = (.ok r₁, more₁) ∧
      agentToolMore twoLines more₁ 0 (some (lit "1")) = (.ok r₂, more₂) ∧
      r₁.nextOffset < r₂.nextOffset ∧ r₁.body ++ r₂.body = lit "a\nb" ∧ more₂.valid = false := by
  obtain ⟨-, hcover⟩ := @reads_cover twoLines ⟨rfl, rfl, rfl, rfl, rfl⟩ (by decide)
    (by decide) "f" (by decide)
  have hrun : ∃ r₁ more₁, agentToolRead twoLines ⟨"", 0, false, false, 0, false⟩ 0 (some "f") none none
      (some (lit "1")) (some (lit "true")) = (.ok r₁, more₁) ∧ r₁.nextOffset = 2 ∧ more₁.valid = true :=
    ⟨_, _, rfl, by decide +kernel, by decide +kernel⟩
  obtain ⟨r₁, more₁, hrun, hnext, hmore⟩ := hrun
  have hread : Reads twoLines "f" 1 true [r₁] more₁ := .read rfl rfl rfl hrun
  obtain ⟨stop₁, -, hstop₁, -, -, -, -, -, hgoes⟩ := hcover 1 true [r₁] more₁ hread
  obtain rfl : r₁.nextOffset = stop₁ := by simpa using hstop₁
  -- the call of more goes on behind the first line, so it ends at the end of the file
  obtain ⟨r₂, more₂, hsecond, hlt⟩ := (hgoes hmore).2 0 (some (lit "1"))
  obtain ⟨stop₂, -, hstop₂, -, hslice, -, -, hvalid₂, -⟩ :=
    hcover 1 true _ more₂ (.more hread hmore hsecond)
  obtain rfl : r₂.nextOffset = stop₂ := by simpa using hstop₂
  have hend : twoLines.content.length ≤ r₂.nextOffset := by
    have : twoLines.content.length = 3 := by decide
    omega
  refine ⟨r₁, more₁, r₂, more₂, hrun, hsecond, hlt, ?_, ?_⟩
  · have hstart : lineStart twoLines.content 1 = 0 := by decide
    have hbody := hslice rfl
    rw [hstart, fileSlice, List.drop_zero, Nat.sub_zero, List.take_of_length_le hend] at hbody
    rw [← List.append_nil r₂.body]
    exact hbody
  · simpa using mt hvalid₂.mp (Nat.not_lt.mpr hend)

theorem tokens_replicate (n : Nat) :
    tokens (List.replicate n 10) = List.replicate n ⟨[10], true⟩ := by
  induction n with
  | zero => simp
  | succ n ih =>
    rw [List.replicate_succ, tokens_cons (fun h => absurd h (by decide)), ih, List.replicate_succ]
    rfl

theorem skipLoop_replicate (k n line : Nat) :
    skipLoop (line + k) line (List.replicate (k + n) ⟨[10], true⟩) =
      (line + k, List.replicate n ⟨[10], true⟩) := by
  induction k generalizing line with
  | zero =>
    rw [Nat.zero_add]
    cases n with
    | zero => rfl
    | succ n =>
      rw [List.replicate_succ, skipLoop, if_neg (by omega)]
      rfl
  | succ k ih =>
    rw [show k + 1 + n = k + n + 1 by omega, List.replicate_succ, skipLoop, if_pos (by omega), if_pos rfl,
      show line + (k + 1) = line + 1 + k by omega, ih]

/-- A read that begins at the last line number fails at the end of that line. -/
theorem read_overflow (n : Nat) (hn : intMax = n + 1) :
    agentToolRead ⟨none, List.replicate (n + 1) 10, true, true, true, true, ""⟩
      ⟨"", 0, false, false, 0, false⟩ 0 (some "f") none (some (lit "2147483647")) none none =
      (.error (readFailed "Value too large for defined data type"),
        agentWorkerSetMore none 0 false) := by
  have hstart : agentParseIntDefault (some (lit "2147483647")) 1 1 intMax = (n + 1 : Nat) := by
    rw [← hn]
    decide
  have hcount : agentParseIntDefault none (agentReadDefaultLines 0) 1 intMax = 500 := by decide
  have hskip : skipLoop (n + 1) 1 (tokens (List.replicate (n + 1) 10)) =
      (n + 1, [⟨[10], true⟩]) := by
    have := skipLoop_replicate n 1 1
    rw [tokens_replicate, Nat.add_comm n 1]
    rw [Nat.add_comm n 1] at this
    exact this
  have hloop : readLoop false 500 false [⟨[10], true⟩] ⟨[], n + 1, 0, true, true, 0⟩ =
      .error .overflow := by
    rw [readLoop, ← hn]
    rfl
  have hopened : readOpened ⟨none, List.replicate (n + 1) 10, true, true, true, true, ""⟩ "f" (n + 1) 500
      false false 0 false = .error (readFailed "Value too large for defined data type") := by
    simp only [readOpened, lt_irrefl, decide_false, Bool.false_and, Bool.false_eq_true, if_false, hskip,
      Bool.not_false, hloop]
  have hbool : agentParseBoolDefault none false = false := rfl
  have hpath : (some "f").getD "" ≠ "" := by decide
  rw [agentToolRead, hstart, hcount, hbool, agentReadRangeFrom, if_neg hpath]
  simp only [Option.getD_some, if_neg (by omega : ¬ ((n + 1 : Nat) : Int) < 1), Int.toNat_natCast,
    if_neg (by decide : ¬ (500 : Int) ≤ 0), show (500 : Int).toNat = 500 from rfl, hopened, if_true]

/-- A file with as many line endings as the largest line number cannot be read from its last line. -/
theorem read_overflows : ∃ calls : FileCalls, calls.Clean ∧ 0 ∉ calls.content ∧ ∃ error,
    (agentToolRead calls ⟨"", 0, false, false, 0, false⟩ 0 (some "f") none
      (some (lit "2147483647")) none none).1 = .error error :=
  ⟨_, ⟨rfl, rfl, rfl, rfl, rfl⟩, fun h => absurd (List.eq_of_mem_replicate h) (by decide), _,
    congrArg Prod.fst (read_overflow 2147483646 rfl)⟩

end Ds4.Agent
