import Ds4.Agent.Replace

/-!
# An edit replaces the target or nothing

Up to its commit `agent_replace_file` leaves the target alone, so that it is replaced by the whole new
content or keeps its bytes (`agentReplaceFile_spec`), and `agent_tool_edit` splices the new text in at
the target of the edit (`agentToolEdit_spec`).
-/

namespace Ds4.Agent

open Ds4.Lib

/-! ## Steps -/

/-- A step that leaves the target alone, whether it succeeds or not. -/
def Keeps (step : Step) : Prop :=
  ∀ d, (∀ d', step d = .ok d' → d'.target = d.target) ∧
    ∀ e, step d = .error e → e.2.target = d.target

theorem keeps_check (ok : Bool) (failure : ReplaceFailure) : Keeps (check ok failure) := by
  intro d
  unfold check
  split_ifs
  · exact ⟨by rintro d' ⟨⟩; rfl, by simp⟩
  · exact ⟨by simp, by rintro e ⟨⟩; rfl⟩

theorem keeps_runSteps {steps : List Step} (h : ∀ step ∈ steps, Keeps step) :
    Keeps (runSteps steps) := by
  induction steps with
  | nil => exact fun d => ⟨by rintro d' ⟨⟩; rfl, by simp [runSteps]⟩
  | cons step steps ih =>
    intro d
    have hfirst := h step List.mem_cons_self d
    have hrest := ih fun s hs => h s (List.mem_cons_of_mem step hs)
    rw [runSteps]
    cases hstep : step d with
    | error e => exact ⟨by simp [Except.bind], by rintro e' ⟨⟩; exact hfirst.2 e hstep⟩
    | ok d1 =>
      have hd1 := hfirst.1 d1 hstep
      exact ⟨fun d' hd' => ((hrest d1).1 d' hd').trans hd1, fun e he => ((hrest d1).2 e he).trans hd1⟩

theorem keeps_compareSource (calls : ReplaceCalls) (file : Bytes) (expected : Option Bytes) :
    Keeps (compareSource calls file expected) := by
  intro d
  unfold compareSource
  cases expected with
  | none => exact ⟨by rintro d' ⟨⟩; rfl, by simp⟩
  | some expected =>
    dsimp only
    split_ifs
    · exact ⟨by simp, by rintro e ⟨⟩; rfl⟩
    · cases compareLoop calls.reads file expected with
      | error failure => exact ⟨by simp, by rintro e ⟨⟩; rfl⟩
      | ok => exact ⟨by rintro d' ⟨⟩; rfl, by simp⟩

theorem keeps_inspect (calls : ReplaceCalls) (expected : Option Bytes) :
    Keeps (inspect calls expected) := by
  intro d
  have hnew : Keeps (runSteps (inspectNew calls expected)) := by
    refine keeps_runSteps fun step hs => ?_
    simp only [inspectNew, List.mem_cons, List.not_mem_nil, or_false] at hs
    rcases hs with rfl | rfl <;> exact keeps_check _ _
  have hold : ∀ file, Keeps (runSteps (inspectOld calls file expected)) := by
    refine fun file => keeps_runSteps fun step hs => ?_
    simp only [inspectOld, List.mem_cons, List.not_mem_nil, or_false] at hs
    rcases hs with rfl | rfl | rfl | rfl
    · exact keeps_check _ _
    · exact keeps_check _ _
    · exact keeps_check _ _
    · exact keeps_compareSource _ _ _
  unfold inspect
  split
  · exact hnew d
  · exact hold _ d

theorem keeps_openTemp (calls : ReplaceCalls) : Keeps (openTemp calls) := by
  intro d
  unfold openTemp
  split_ifs
  · exact ⟨by simp, by rintro e ⟨⟩; rfl⟩
  · exact ⟨by rintro d' ⟨⟩; rfl, by simp⟩
  · exact ⟨by simp, by rintro e ⟨⟩; rfl⟩
  · exact ⟨by simp, by rintro e ⟨⟩; rfl⟩
  · exact ⟨by rintro d' ⟨⟩; rfl, by simp⟩

theorem keeps_writeTemp (calls : ReplaceCalls) (data : Bytes) : Keeps (writeTemp calls data) := by
  intro d
  unfold writeTemp
  cases writeLoop calls.writes [] data with
  | error e => exact ⟨by simp, by rintro e ⟨⟩; rfl⟩
  | ok temp => exact ⟨by rintro d' ⟨⟩; rfl, by simp⟩

theorem keeps_copyMode (calls : ReplaceCalls) : Keeps (copyMode calls) := by
  intro d
  unfold copyMode
  split_ifs
  · refine keeps_runSteps (fun step hs => ?_) d
    simp only [List.mem_cons, List.not_mem_nil, or_false] at hs
    rcases hs with rfl | rfl | rfl <;> exact keeps_check _ _
  · exact ⟨by rintro d' ⟨⟩; rfl, by simp⟩

/-- **In front of the commit the target is left alone.** -/
theorem keeps_prepare (calls : ReplaceCalls) (data : Bytes) (expected : Option Bytes) :
    Keeps (runSteps (prepare calls data expected)) := by
  refine keeps_runSteps fun step hs => ?_
  simp only [prepare, List.mem_cons, List.not_mem_nil, or_false] at hs
  rcases hs with rfl | rfl | rfl | rfl | rfl | rfl | rfl | rfl
  · exact keeps_check _ _
  · exact keeps_inspect _ _
  · exact keeps_check _ _
  · exact keeps_openTemp _
  · exact keeps_writeTemp _ _
  · exact keeps_copyMode _
  · exact keeps_check _ _
  · exact keeps_check _ _

/-! ## The new content -/

theorem writeLoop_ok {calls : List Transfer} {temp rest result : Bytes}
    (h : writeLoop calls temp rest = .ok result) : result = temp ++ rest := by
  induction calls generalizing temp rest with
  | nil =>
    cases rest with
    | nil =>
      obtain rfl := Except.ok.inj h
      simp
    | cons c rest => cases h
  | cons call calls ih =>
    cases rest with
    | nil =>
      obtain rfl := Except.ok.inj h
      simp
    | cons c rest =>
      cases call with
      | interrupted => exact ih h
      | failed => cases h
      | moved n =>
        rw [writeLoop] at h
        split_ifs at h with hn
        have := ih h
        rwa [List.append_assoc, List.take_append_drop] at this
        simp

theorem runSteps_append (steps steps' : List Step) (d : Disk) :
    runSteps (steps ++ steps') d = (runSteps steps d).bind (runSteps steps') := by
  induction steps generalizing d with
  | nil => rfl
  | cons step steps ih =>
    rw [List.cons_append, runSteps, runSteps]
    cases step d with
    | error e => rfl
    | ok d1 => exact ih d1

theorem runSteps_cons_ok {step : Step} {steps : List Step} {d d' : Disk}
    (h : runSteps (step :: steps) d = .ok d') : ∃ d1, step d = .ok d1 ∧ runSteps steps d1 = .ok d' := by
  rw [runSteps] at h
  cases hstep : step d with
  | error e =>
    rw [hstep] at h
    cases h
  | ok d1 =>
    rw [hstep] at h
    exact ⟨d1, rfl, h⟩

theorem check_ok {ok : Bool} {failure : ReplaceFailure} {d d' : Disk}
    (h : check ok failure d = .ok d') : ok = true ∧ d' = d := by
  unfold check at h
  split_ifs at h with hok
  exact ⟨hok, (Except.ok.inj h).symm⟩

theorem prepare_ok {calls : ReplaceCalls} {data : Bytes} {expected : Option Bytes} {d d' : Disk}
    (h : runSteps (prepare calls data expected) d = .ok d') : d'.temp = some data := by
  obtain ⟨d1, -, h⟩ := runSteps_cons_ok h
  obtain ⟨d2, -, h⟩ := runSteps_cons_ok h
  obtain ⟨d3, -, h⟩ := runSteps_cons_ok h
  obtain ⟨d4, -, h⟩ := runSteps_cons_ok h
  obtain ⟨d5, hwrite, h⟩ := runSteps_cons_ok h
  obtain ⟨d6, hmode, h⟩ := runSteps_cons_ok h
  obtain ⟨d7, hsync, h⟩ := runSteps_cons_ok h
  obtain ⟨d8, hclose, h⟩ := runSteps_cons_ok h
  obtain rfl : d8 = d' := Except.ok.inj h
  obtain ⟨-, rfl⟩ := check_ok hclose
  obtain ⟨-, rfl⟩ := check_ok hsync
  have htemp : d5.temp = some data := by
    unfold writeTemp at hwrite
    cases hloop : writeLoop calls.writes [] data with
    | error e =>
      rw [hloop] at hwrite
      cases hwrite
    | ok temp =>
      rw [hloop] at hwrite
      obtain rfl := Except.ok.inj hwrite
      exact congrArg some (writeLoop_ok hloop)
  have hsame : d8 = d5 := by
    unfold copyMode at hmode
    split_ifs at hmode
    · obtain ⟨e1, h1, hmode⟩ := runSteps_cons_ok hmode
      obtain ⟨e2, h2, hmode⟩ := runSteps_cons_ok hmode
      obtain ⟨e3, h3, hmode⟩ := runSteps_cons_ok hmode
      obtain rfl : e3 = d8 := Except.ok.inj hmode
      rw [(check_ok h3).2, (check_ok h2).2, (check_ok h1).2]
    · exact (Except.ok.inj hmode).symm
  rw [hsame, htemp]

@[simp] theorem abandon_target (calls : ReplaceCalls) (failure : ReplaceFailure) (d : Disk) :
    (abandon calls failure d).target = d.target := by
  unfold abandon
  split_ifs <;> rfl

/-- The commit puts the temporary file in the place of the target, or leaves the target alone. -/
theorem commit_cases (calls : ReplaceCalls) (d : Disk) :
    (∃ d', runSteps [commit calls] d = .ok d' ∧ d'.target = d.temp) ∨
      ∃ failure, runSteps [commit calls] d = .error (failure, d) := by
  simp only [runSteps, commit]
  split_ifs
  · exact .inr ⟨_, rfl⟩
  · exact .inr ⟨_, rfl⟩
  · exact .inl ⟨_, rfl, rfl⟩
  · exact .inr ⟨_, rfl⟩
  · exact .inl ⟨_, rfl, rfl⟩
  · exact .inl ⟨_, rfl, rfl⟩

/-- **A replacement leaves the whole new content or the old one.** -/
theorem agentReplaceFile_spec (calls : ReplaceCalls) (data : Bytes) (expected : Option Bytes)
    (d : Disk) :
    ((agentReplaceFile calls data expected d).1 = .ok () →
      (agentReplaceFile calls data expected d).2.target = some data) ∧
    ((agentReplaceFile calls data expected d).1 ≠ .ok () →
      (agentReplaceFile calls data expected d).2.target = d.target) := by
  have hkeeps := keeps_prepare calls data expected d
  unfold agentReplaceFile
  rw [runSteps_append]
  cases hrun : runSteps (prepare calls data expected) d with
  | error e => simpa [Except.bind] using hkeeps.2 e hrun
  | ok d1 =>
    have hd1 : d1.target = d.target := hkeeps.1 _ hrun
    have htemp := prepare_ok hrun
    rcases commit_cases calls d1 with ⟨d2, hcommit, hd2⟩ | ⟨failure, hcommit⟩
    · simp [Except.bind, hcommit, hd2, htemp]
    · simp [Except.bind, hcommit, hd1]

/-! ## Calls that succeed -/

/-- The calls of a replacement of `file` by `data` all succeed, and nobody else changes the file. -/
structure ReplaceCalls.Succeed (calls : ReplaceCalls) (file data : Bytes) : Prop where
  lstat : calls.lstat = true
  realpath : calls.realpath = true
  openSource : calls.openSource = true
  fstat : calls.fstat = true
  regular : calls.regular = true
  links : calls.links = 1
  reads : compareLoop calls.reads file file = .ok ()
  tempFits : calls.tempFits = true
  mkstemp : calls.mkstemp = true
  writes : writeLoop calls.writes [] data = .ok data
  fchown : calls.fchown = true
  fchmod : calls.fchmod = true
  copyAttributes : calls.copyAttributes = true
  fsync : calls.fsync = true
  close : calls.close = true
  sameVersion : calls.sameVersion = true
  rename : calls.rename = true

theorem inspect_ok {calls : ReplaceCalls} {file : Bytes} {temp : Option Bytes} {d : Disk}
    (h : inspect calls (some file) ⟨some file, temp⟩ = .ok d) :
    d = ⟨some file, temp⟩ ∧ calls.realpath = true ∧ (calls.openSource = true ∧ calls.fstat = true) ∧
      (calls.regular = true ∧ calls.links = 1) ∧ compareLoop calls.reads file file = .ok () := by
  obtain ⟨d1, hreal, h⟩ := runSteps_cons_ok h
  obtain ⟨d2, hopen, h⟩ := runSteps_cons_ok h
  obtain ⟨d3, hregular, h⟩ := runSteps_cons_ok h
  obtain ⟨d4, hcompare, h⟩ := runSteps_cons_ok h
  obtain rfl : d4 = d := Except.ok.inj h
  obtain ⟨hreal', rfl⟩ := check_ok hreal
  obtain ⟨hopen', rfl⟩ := check_ok hopen
  obtain ⟨hregular', rfl⟩ := check_ok hregular
  simp only [compareSource, ne_eq, not_true_eq_false, if_false] at hcompare
  cases hloop : compareLoop calls.reads file file with
  | error failure =>
    rw [hloop] at hcompare
    cases hcompare
  | ok =>
    rw [hloop] at hcompare
    exact ⟨(Except.ok.inj hcompare).symm, hreal', by simpa using hopen', by simpa using hregular', rfl⟩

/-- The replacement of an old file with the bytes that were read succeeds just when its calls do. -/
theorem agentReplaceFile_ok_iff {calls : ReplaceCalls} {file data : Bytes} {temp : Option Bytes} :
    (agentReplaceFile calls data (some file) ⟨some file, temp⟩).1 = .ok () ↔
      calls.Succeed file data := by
  constructor
  · intro h
    unfold agentReplaceFile at h
    cases hrun : runSteps (prepare calls data (some file) ++ [commit calls]) ⟨some file, temp⟩ with
    | error e =>
      rw [hrun] at h
      cases h
    | ok d' =>
      obtain ⟨d1, hlstat, hrun⟩ := runSteps_cons_ok hrun
      obtain ⟨d2, hinspect, hrun⟩ := runSteps_cons_ok hrun
      obtain ⟨d3, hfits, hrun⟩ := runSteps_cons_ok hrun
      obtain ⟨d4, htemp, hrun⟩ := runSteps_cons_ok hrun
      obtain ⟨d5, hwrite, hrun⟩ := runSteps_cons_ok hrun
      obtain ⟨d6, hmode, hrun⟩ := runSteps_cons_ok hrun
      obtain ⟨d7, hsync, hrun⟩ := runSteps_cons_ok hrun
      obtain ⟨d8, hclose, hrun⟩ := runSteps_cons_ok hrun
      obtain ⟨d9, hcommit, -⟩ := runSteps_cons_ok hrun
      obtain ⟨hlstat', rfl⟩ := check_ok hlstat
      obtain ⟨rfl, hreal, ⟨hopen, hfstat⟩, ⟨hregular, hlinks⟩, hreads⟩ := inspect_ok hinspect
      obtain ⟨hfits', rfl⟩ := check_ok hfits
      obtain ⟨hmk, rfl⟩ : calls.mkstemp = true ∧ d4 = ⟨some file, some []⟩ := by
        simp only [openTemp, Option.isSome_some, if_true] at htemp
        split_ifs at htemp with hmk
        exact ⟨by simpa using hmk, (Except.ok.inj htemp).symm⟩
      obtain ⟨hwrites, rfl⟩ : writeLoop calls.writes [] data = .ok data ∧
          d5 = ⟨some file, some data⟩ := by
        unfold writeTemp at hwrite
        cases hloop : writeLoop calls.writes [] data with
        | error e =>
          rw [hloop] at hwrite
          cases hwrite
        | ok written =>
          obtain rfl : written = data := by simpa using writeLoop_ok hloop
          rw [hloop] at hwrite
          exact ⟨rfl, (Except.ok.inj hwrite).symm⟩
      simp only [copyMode, Option.isSome_some, if_true] at hmode
      obtain ⟨e1, hchown, hmode⟩ := runSteps_cons_ok hmode
      obtain ⟨e2, hchmod, hmode⟩ := runSteps_cons_ok hmode
      obtain ⟨e3, hcopy, hmode⟩ := runSteps_cons_ok hmode
      obtain rfl : e3 = d6 := Except.ok.inj hmode
      obtain ⟨hchown', rfl⟩ := check_ok hchown
      obtain ⟨hchmod', rfl⟩ := check_ok hchmod
      obtain ⟨hcopy', rfl⟩ := check_ok hcopy
      obtain ⟨hsync', rfl⟩ := check_ok hsync
      obtain ⟨hclose', rfl⟩ := check_ok hclose
      simp only [commit, Option.isSome_some, if_true] at hcommit
      split_ifs at hcommit with hsame hrename
      exact ⟨hlstat', hreal, hopen, hfstat, hregular, hlinks, hreads, hfits', hmk, hwrites, hchown', hchmod',
        hcopy', hsync', hclose', by simpa using hsame, by simpa using hrename⟩
  · intro h
    have hwrite : ∀ d, writeTemp calls data d = .ok { d with temp := some data } := by
      intro d
      rw [writeTemp, h.writes]
    have hcompare : ∀ d, compareSource calls file (some file) d = .ok d := by
      intro d
      simp [compareSource, h.reads]
    simp [agentReplaceFile, prepare, runSteps, check, inspect, inspectOld, openTemp, copyMode, commit,
      Except.bind, hwrite, hcompare, h.lstat, h.realpath, h.openSource, h.fstat, h.regular, h.links,
      h.tempFits, h.mkstemp, h.fchown, h.fchmod, h.copyAttributes, h.fsync, h.close, h.sameVersion,
      h.rename]

/-- The loops end well when every call moves something or is interrupted, and there are enough. -/
def Delivers (calls : List Transfer) (n : Nat) : Prop :=
  (∀ call ∈ calls, call = .interrupted ∨ ∃ k, 0 < k ∧ call = .moved k) ∧
    n ≤ calls.countP fun call => match call with
      | .moved _ => true
      | _ => false

theorem writeLoop_delivers {calls : List Transfer} {temp rest : Bytes}
    (h : Delivers calls rest.length) : writeLoop calls temp rest = .ok (temp ++ rest) := by
  induction calls generalizing temp rest with
  | nil =>
    obtain rfl : rest = [] := by simpa [Delivers] using h
    simp [writeLoop]
  | cons call calls ih =>
    obtain ⟨hcall, hcount⟩ := h
    have hcalls := fun c hc => hcall c (List.mem_cons_of_mem call hc)
    cases rest with
    | nil => simp [writeLoop]
    | cons c rest =>
      rcases hcall call List.mem_cons_self with rfl | ⟨k, hk, rfl⟩
      · rw [writeLoop]
        · exact ih ⟨hcalls, by simpa using hcount⟩
        · simp
      · rw [writeLoop]
        · rw [if_neg (by omega), ih ⟨hcalls, ?_⟩, List.append_assoc, List.take_append_drop]
          rw [List.countP_cons_of_pos rfl] at hcount
          rw [List.length_drop]
          omega
        · simp

theorem compareLoop_delivers {calls : List Transfer} {file : Bytes} (h : Delivers calls file.length) :
    compareLoop calls file file = .ok () := by
  induction calls generalizing file with
  | nil =>
    obtain rfl : file = [] := by simpa [Delivers] using h
    rfl
  | cons call calls ih =>
    obtain ⟨hcall, hcount⟩ := h
    have hcalls := fun c hc => hcall c (List.mem_cons_of_mem call hc)
    cases file with
    | nil => rfl
    | cons c file =>
      rcases hcall call List.mem_cons_self with rfl | ⟨k, hk, rfl⟩
      · rw [compareLoop]
        · exact ih ⟨hcalls, by simpa using hcount⟩
        · simp
      · rw [compareLoop]
        · have hpos : 0 < min k (min 8192 (c :: file).length) := by simp; omega
          obtain ⟨m, hm⟩ : ∃ m, min k (min 8192 (c :: file).length) = m + 1 :=
            ⟨_, (Nat.succ_pred_eq_of_pos hpos).symm⟩
          rw [hm, if_neg]
          · have hlen : ((c :: file).take (m + 1)).length = m + 1 := by
              rw [List.length_take]
              omega
            rw [hlen]
            refine ih ⟨hcalls, ?_⟩
            rw [List.countP_cons_of_pos rfl] at hcount
            rw [List.length_drop]
            omega
          · simp [List.take_prefix]
        · simp

/-! ## The tool -/

/-- The file is opened and read. -/
structure ReadCalls.Succeed (reads : ReadCalls) : Prop where
  opens : reads.openError = none
  reads : reads.readError = none

theorem agentReadFileBytes_ok {path : String} {reads : ReadCalls} {data : Bytes} (h : reads.Succeed)
    (hlen : data.length ≤ agentFileMaxBytes) : agentReadFileBytes path reads (some data) = .ok data := by
  simp [agentReadFileBytes, h.opens, h.reads, hlen]

theorem agentReadFileBytes_error {path : String} {reads : ReadCalls} {data : Bytes} (h : ¬ reads.Succeed) :
    ∃ error, agentReadFileBytes path reads (some data) = .error error := by
  unfold agentReadFileBytes
  cases hopen : reads.openError with
  | some error => exact ⟨_, rfl⟩
  | none =>
    simp only
    split
    · exact ⟨_, rfl⟩
    · cases hread : reads.readError with
      | some error => exact ⟨_, rfl⟩
      | none => exact absurd ⟨hopen, hread⟩ h

theorem agentApplyFileSplice_cases (path strerror : String) (calls : ReplaceCalls) (data : Bytes)
    (offset length : Nat) (new : Bytes) (kind : String) (temp : Option Bytes) :
    (calls.Succeed data (splice data offset length new) ∧ ∃ report d',
      agentApplyFileSplice path strerror calls data offset length new kind ⟨some data, temp⟩ =
        (.ok report, d') ∧ d'.target = some (splice data offset length new)) ∨
    (¬ calls.Succeed data (splice data offset length new) ∧ ∃ error d',
      agentApplyFileSplice path strerror calls data offset length new kind ⟨some data, temp⟩ =
        (.error error, d') ∧ d'.target = some data) := by
  obtain ⟨hok, herror⟩ := agentReplaceFile_spec calls (splice data offset length new) (some data)
    ⟨some data, temp⟩
  rw [← @agentReplaceFile_ok_iff _ _ _ temp]
  unfold agentApplyFileSplice
  generalize agentReplaceFile calls (splice data offset length new) (some data) ⟨some data, temp⟩ = out
    at hok herror ⊢
  obtain ⟨result, d'⟩ := out
  cases result with
  | ok => exact .inl ⟨rfl, _, d', rfl, hok rfl⟩
  | error failure => exact .inr ⟨by simp, _, d', rfl, herror (by simp)⟩

/-- **An edit replaces its target or nothing.** -/
theorem agentToolEdit_spec {path : String} {old data : Bytes} (hpath : path ≠ "") (hold : old ≠ [])
    (hlen : data.length ≤ agentFileMaxBytes) (new : Bytes) (allowUpto : Bool) (reads : ReadCalls)
    (strerror : String) (calls : ReplaceCalls) (temp : Option Bytes) :
    (∀ offset length, reads.Succeed → EditTarget data old allowUpto offset length →
      calls.Succeed data (data.take offset ++ new ++ data.drop (offset + length)) →
      ∃ report d', agentToolEdit (some path) (some old) (some new) allowUpto reads strerror calls
          ⟨some data, temp⟩ = (.ok report, d') ∧
        d'.target = some (data.take offset ++ new ++ data.drop (offset + length))) ∧
    ((¬ (reads.Succeed ∧ ∃ offset length, EditTarget data old allowUpto offset length ∧
        calls.Succeed data (data.take offset ++ new ++ data.drop (offset + length)))) →
      ∃ error d', agentToolEdit (some path) (some old) (some new) allowUpto reads strerror calls
          ⟨some data, temp⟩ = (.error error, d') ∧ d'.target = some data) ∧
    (reads.Succeed → (agentPreflightEditOld (some path) (some old) allowUpto reads (some data) = .ok () ↔
      ∃ offset length, EditTarget data old allowUpto offset length)) := by
  by_cases hreads : reads.Succeed
  · have hfile : agentReadFileBytes path reads (some data) = .ok data := agentReadFileBytes_ok hreads hlen
    cases hfind : agentEditFindOldSpan data old allowUpto with
    | error e =>
      have hno : ∀ offset length, ¬ EditTarget data old allowUpto offset length := by
        intro offset length htarget
        obtain ⟨anchored, hspan⟩ := (agentEditFindOldSpan_iff hold).mpr htarget
        rw [hfind] at hspan
        cases hspan
      refine ⟨fun offset length _ h => absurd h (hno offset length), fun _ => ?_, fun _ => ?_⟩
      · exact ⟨toolError e, ⟨some data, temp⟩,
          by simp only [agentToolEdit, Option.getD_some, hpath, hold, if_false, hfile, hfind], rfl⟩
      · simp [agentPreflightEditOld, hpath, hold, hfile, hfind, Except.bind, Except.map, hno]
    | ok span =>
      obtain ⟨offset, length, anchored⟩ := span
      have htarget : EditTarget data old allowUpto offset length :=
        (agentEditFindOldSpan_iff hold).mp ⟨anchored, hfind⟩
      have hedit : agentToolEdit (some path) (some old) (some new) allowUpto reads strerror calls
          ⟨some data, temp⟩ = agentApplyFileSplice path strerror calls data offset length new
            (if anchored then "anchored old/new replacement" else "old/new replacement")
            ⟨some data, temp⟩ := by
        simp only [agentToolEdit, Option.getD_some, hpath, hold, if_false, hfile, hfind]
      rw [hedit]
      refine ⟨fun o l _ h hcalls => ?_, fun hno => ?_, fun _ => ?_⟩
      · obtain ⟨rfl, rfl⟩ := htarget.unique hold h
        exact (agentApplyFileSplice_cases ..).elim And.right fun hfail => absurd hcalls hfail.1
      · exact (agentApplyFileSplice_cases ..).elim
          (fun hdone => absurd ⟨hreads, offset, length, htarget, hdone.1⟩ hno) And.right
      · simp only [agentPreflightEditOld, hpath, hold, hfile, hfind, Except.bind, Except.map,
          Option.getD_some, if_false, true_iff]
        exact ⟨offset, length, htarget⟩
  · obtain ⟨error, hfile⟩ := @agentReadFileBytes_error path reads data hreads
    refine ⟨fun _ _ h => absurd h hreads, fun _ => ?_, fun h => absurd h hreads⟩
    exact ⟨toolError error, ⟨some data, temp⟩,
      by simp only [agentToolEdit, Option.getD_some, hpath, hold, if_false, hfile], rfl⟩

/-- Calls that all succeed and move one byte at a time, after an interruption. -/
def bytewiseCalls (n : Nat) : ReplaceCalls :=
  ⟨true, true, true, true, true, 1, .interrupted :: List.replicate n (.moved 1), true, true, true, true, true,
    .interrupted :: List.replicate n (.moved 1), true, true, true, true, true, true, true, true, true, true⟩

theorem bytewiseCalls_succeed {n : Nat} {file data : Bytes} (hfile : file.length ≤ n) (hdata : data.length ≤ n) :
    (bytewiseCalls n).Succeed file data := by
  have hdelivers : ∀ m ≤ n, Delivers (.interrupted :: List.replicate n (.moved 1)) m := by
    intro m hm
    refine ⟨List.forall_mem_cons.2 ⟨.inl rfl, fun call hcall => .inr ⟨1, Nat.one_pos, ?_⟩⟩, ?_⟩
    · exact List.eq_of_mem_replicate hcall
    · simpa [List.countP_replicate] using hm
  refine ⟨rfl, rfl, rfl, rfl, rfl, rfl, compareLoop_delivers (hdelivers _ hfile), rfl, rfl, ?_, rfl, rfl,
    rfl, rfl, rfl, rfl, rfl⟩
  exact writeLoop_delivers (hdelivers _ hdata)

/-- The first of two letters is replaced; a span is replaced from its head to the tail in a later line; and a file
that cannot be read is kept. -/
theorem agentToolEdit_spec_upto :
    (∃ report d', agentToolEdit (some "f") (some (lit "a")) (some (lit "c")) true ⟨none, none⟩ ""
        (bytewiseCalls 2) ⟨some (lit "ab"), none⟩ = (.ok report, d') ∧ d'.target = some (lit "cb")) ∧
    (∃ report d', agentToolEdit (some "f") (some (lit "f(\n[upto]\n)")) (some (lit "g()")) true ⟨none, none⟩ ""
        (bytewiseCalls 16) ⟨some (lit "x\nf(\n  1,\n)\ny"), none⟩ = (.ok report, d') ∧
      d'.target = some (lit "x\ng()\ny")) ∧
    ∃ error d', agentToolEdit (some "f") (some (lit "a")) (some (lit "c")) true ⟨none, some "EIO"⟩ ""
        (bytewiseCalls 2) ⟨some (lit "ab"), none⟩ = (.error error, d') ∧ d'.target = some (lit "ab") := by
  have hletter : EditTarget (lit "ab") (lit "a") true 0 1 :=
    (agentEditFindOldSpan_iff (by decide)).mp ⟨false, by decide⟩
  have hspan : EditTarget (lit "x\nf(\n  1,\n)\ny") (lit "f(\n[upto]\n)") true 2 9 :=
    (agentEditFindOldSpan_iff (by decide)).mp ⟨true, by decide⟩
  refine ⟨?_, ?_, ?_⟩
  · exact (agentToolEdit_spec (by decide) (by decide) (by decide) (lit "c") true ⟨none, none⟩ ""
      (bytewiseCalls 2) none).1 0 1 ⟨rfl, rfl⟩ hletter (bytewiseCalls_succeed (by decide) (by decide))
  · exact (agentToolEdit_spec (by decide) (by decide) (by decide) (lit "g()") true ⟨none, none⟩ ""
      (bytewiseCalls 16) none).1 2 9 ⟨rfl, rfl⟩ hspan (bytewiseCalls_succeed (by decide) (by decide))
  · exact (agentToolEdit_spec (by decide) (by decide) (by decide) (lit "c") true ⟨none, some "EIO"⟩ ""
      (bytewiseCalls 2) none).2.1 fun h => Option.some_ne_none _ h.1.reads

/-- The empty text occurs once in the empty file, and the edit is refused. -/
theorem agentToolEdit_empty :
    EditTarget [] [] false 0 0 ∧ (bytewiseCalls 1).Succeed [] (lit "c") ∧
      agentToolEdit (some "f") (some []) (some (lit "c")) false ⟨none, none⟩ "" (bytewiseCalls 1)
        ⟨some [], none⟩ =
        (.error "Tool error: edit requires non-empty old text\n", ⟨some [], none⟩) := by
  refine ⟨.whole (.inl rfl) ⟨le_rfl, ⟨le_rfl, List.nil_prefix⟩, fun j _ hj => ?_⟩,
    bytewiseCalls_succeed (by decide) (by decide), rfl⟩
  exact Nat.le_zero.mp hj.1

end Ds4.Agent
