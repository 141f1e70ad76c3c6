import Ds4.Lib.Bytes

/-!
# Texts with three kinds of line endings

A text is read as tokens: a byte, or a line ending, which is LF, CR or CR LF. Cutting a text between two
of its tokens cuts its list of tokens (`tokens_of_append`), and a run of tokens falls into the parts of
lines that it covers (`lineParts`).
-/

namespace Ds4.Lib

/-! ## Tokens -/

/-- A byte of a line or a line ending. -/
structure Token where
  raw : Bytes
  ending : Bool
  deriving DecidableEq

/-- The token with its ending as LF. -/
def Token.plain (t : Token) : Bytes := if t.ending then [10] else t.raw

/-- The tokens of a text. -/
def tokens : Bytes → List Token
  | [] => []
  | 13 :: 10 :: r => ⟨[13, 10], true⟩ :: tokens r
  | c :: r => ⟨[c], c = 10 ∨ c = 13⟩ :: tokens r

/-- The text of a list of tokens. -/
def rawText (ts : List Token) : Bytes := ts.flatMap Token.raw

/-- The number of line endings. -/
def endings (ts : List Token) : Nat := ts.countP Token.ending

/-- The text with every ending as LF. -/
def plainText (ts : List Token) : Bytes := ts.flatMap Token.plain

@[simp] theorem tokens_nil : tokens [] = [] := by rw [tokens]

theorem tokens_crlf (r : Bytes) : tokens (13 :: 10 :: r) = ⟨[13, 10], true⟩ :: tokens r := by
  rw [tokens]

theorem tokens_cons {c : UInt8} {r : Bytes} (h : c = 13 → r.head? ≠ some 10) :
    tokens (c :: r) = ⟨[c], c = 10 ∨ c = 13⟩ :: tokens r := by
  rw [tokens]
  rintro r' rfl rfl
  exact h rfl rfl

@[simp] theorem rawText_nil : rawText [] = [] := rfl

@[simp] theorem rawText_cons (t : Token) (ts : List Token) : rawText (t :: ts) = t.raw ++ rawText ts :=
  rfl

@[simp] theorem rawText_append (ts us : List Token) : rawText (ts ++ us) = rawText ts ++ rawText us :=
  List.flatMap_append

@[simp] theorem plainText_append (ts us : List Token) :
    plainText (ts ++ us) = plainText ts ++ plainText us := List.flatMap_append

@[simp] theorem endings_append (ts us : List Token) : endings (ts ++ us) = endings ts + endings us :=
  List.countP_append

theorem tokens_cases (s : Bytes) :
    s = [] ∨ (∃ r, s = 13 :: 10 :: r) ∨ ∃ c r, s = c :: r ∧ (c = 13 → r.head? ≠ some 10) := by
  cases s with
  | nil => exact .inl rfl
  | cons c r =>
    by_cases h : c = 13 ∧ r.head? = some 10
    · obtain ⟨rfl, hr⟩ := h
      obtain ⟨r', rfl⟩ := List.head?_eq_some_iff.mp hr
      exact .inr (.inl ⟨r', rfl⟩)
    · exact .inr (.inr ⟨c, r, rfl, fun hc hr => h ⟨hc, hr⟩⟩)

@[simp] theorem rawText_tokens (s : Bytes) : rawText (tokens s) = s := by
  induction hn : s.length using Nat.strong_induction_on generalizing s with
  | _ n ih =>
    subst hn
    rcases tokens_cases s with rfl | ⟨r, rfl⟩ | ⟨c, r, rfl, h⟩
    · simp
    · rw [tokens_crlf, rawText_cons, ih r.length (by simp) r rfl]
      rfl
    · rw [tokens_cons h, rawText_cons, ih r.length (by simp) r rfl]
      rfl

/-- **A text that is cut between two tokens.** -/
theorem tokens_of_append {s : Bytes} {ts us : List Token} (h : tokens s = ts ++ us) :
    tokens (rawText ts) = ts ∧ tokens (rawText us) = us := by
  induction ts generalizing s with
  | nil =>
    rw [List.nil_append] at h
    exact ⟨by simp, by rw [← h, rawText_tokens]⟩
  | cons t ts ih =>
    rw [List.cons_append] at h
    rcases tokens_cases s with rfl | ⟨r, rfl⟩ | ⟨c, r, rfl, hc⟩
    · rw [tokens_nil] at h
      cases h
    · rw [tokens_crlf] at h
      obtain ⟨rfl, hrest⟩ := List.cons.inj h
      obtain ⟨h1, h2⟩ := ih hrest
      refine ⟨?_, h2⟩
      rw [rawText_cons]
      change tokens (13 :: 10 :: rawText ts) = _
      rw [tokens_crlf, h1]
    · rw [tokens_cons hc] at h
      obtain ⟨rfl, hrest⟩ := List.cons.inj h
      obtain ⟨h1, h2⟩ := ih hrest
      refine ⟨?_, h2⟩
      rw [rawText_cons]
      change tokens (c :: rawText ts) = _
      rw [tokens_cons, h1]
      intro hcr hhead
      refine hc hcr ?_
      have hr : r = rawText ts ++ rawText us := by
        rw [← rawText_append, ← hrest, rawText_tokens]
      obtain ⟨x, hx⟩ := List.head?_eq_some_iff.mp hhead
      rw [hr, hx]
      rfl

theorem raw_ne_nil_of_mem_tokens {s : Bytes} {t : Token} (h : t ∈ tokens s) : t.raw ≠ [] := by
  induction hn : s.length using Nat.strong_induction_on generalizing s with
  | _ n ih =>
    subst hn
    rcases tokens_cases s with rfl | ⟨r, rfl⟩ | ⟨c, r, rfl, hc⟩
    · simp at h
    · rw [tokens_crlf] at h
      rcases List.mem_cons.mp h with rfl | h
      · simp
      · exact ih r.length (by simp) h rfl
    · rw [tokens_cons hc] at h
      rcases List.mem_cons.mp h with rfl | h
      · simp
      · exact ih r.length (by simp) h rfl

/-! ## Lines -/

/-- The last token is none or no ending: the text stops inside a line. -/
def insideLine (ts : List Token) : Bool := ts.getLast?.any fun t => !t.ending

theorem insideLine_append {ts us : List Token} (h : us ≠ []) :
    insideLine (ts ++ us) = insideLine us := by
  rw [insideLine, insideLine, List.getLast?_append_of_ne_nil _ h]

/-- The tokens behind the first `n` lines. -/
def afterLines : Nat → List Token → List Token
  | 0, ts => ts
  | _, [] => []
  | n + 1, t :: ts => if t.ending then afterLines n ts else afterLines (n + 1) ts

/-- Where a line begins, the first one with the number one; behind the last line, the end. -/
def lineStart (s : Bytes) (line : Nat) : Nat :=
  s.length - (rawText (afterLines (line - 1) (tokens s))).length

/-- Some of the tokens of one line. -/
structure LinePart where
  line : Nat
  continued : Bool
  tokens : List Token

/-- The parts of lines in a list of tokens that begins in a line, perhaps inside of it. -/
def lineParts (line : Nat) (continued : Bool) : List Token → List LinePart
  | [] => []
  | t :: ts =>
    if t.ending then ⟨line, continued, [t]⟩ :: lineParts (line + 1) false ts
    else match lineParts line continued ts with
      | [] => [⟨line, continued, [t]⟩]
      | p :: ps => { p with tokens := t :: p.tokens } :: ps

@[simp] theorem lineParts_nil (line : Nat) (continued : Bool) : lineParts line continued [] = [] := rfl

theorem lineParts_tokens (line : Nat) (continued : Bool) (ts : List Token) :
    (lineParts line continued ts).flatMap LinePart.tokens = ts := by
  induction ts generalizing line continued with
  | nil => rfl
  | cons t ts ih =>
    rw [lineParts]
    split_ifs with ht
    · rw [List.flatMap_cons, ih]
      rfl
    · have := ih line continued
      split
      · next h =>
        rw [h] at this
        simpa using this
      · next p ps h =>
        rw [h] at this
        simpa using this

theorem lineParts_head {line : Nat} {continued : Bool} {ts : List Token} {p : LinePart}
    {ps : List LinePart} (h : lineParts line continued ts = p :: ps) :
    p.line = line ∧ p.continued = continued := by
  induction ts generalizing p ps with
  | nil => cases h
  | cons t ts ih =>
    rw [lineParts] at h
    split_ifs at h
    · obtain ⟨rfl, -⟩ := List.cons.inj h
      exact ⟨rfl, rfl⟩
    · split at h
      · obtain ⟨rfl, -⟩ := List.cons.inj h
        exact ⟨rfl, rfl⟩
      · next q qs hq =>
        obtain ⟨rfl, -⟩ := List.cons.inj h
        have hhead := ih hq
        exact hhead

/-- A part of a line: what is in front of it ends where it begins, and only its last token can be an
ending. -/
structure LinePart.Fits (line : Nat) (continued : Bool) (front : List Token) (p : LinePart) : Prop where
  number : p.line = line + endings front
  begins : p.continued = if front = [] then continued else insideLine front
  nonempty : p.tokens ≠ []
  one : ∀ t ∈ p.tokens.dropLast, t.ending = false

/-- **Every part is numbered with the line that it belongs to.** -/
theorem lineParts_fits {line : Nat} {continued : Bool} {ts : List Token} {a b : List LinePart}
    {p : LinePart} (h : lineParts line continued ts = a ++ p :: b) :
    p.Fits line continued (a.flatMap LinePart.tokens) := by
  induction ts generalizing line continued a p b with
  | nil => simp at h
  | cons t ts ih =>
    rw [lineParts] at h
    split_ifs at h with ht
    · cases a with
      | nil =>
        obtain ⟨rfl, -⟩ := List.cons.inj h
        exact ⟨rfl, rfl, by simp, by simp⟩
      | cons x a =>
        obtain ⟨rfl, hrest⟩ := List.cons.inj h
        obtain ⟨hnumber, hbegins, hne, hone⟩ := ih hrest
        refine ⟨?_, ?_, hne, hone⟩
        · rw [hnumber, List.flatMap_cons, endings_append]
          simp [endings, ht]
          omega
        · rw [hbegins, List.flatMap_cons]
          simp only [List.cons_append, List.nil_append, reduceCtorEq, if_false]
          split_ifs with hfront
          · simp [hfront, insideLine, ht]
          · exact (@insideLine_append [t] _ hfront).symm
    · split at h
      · next hnil =>
        cases a with
        | nil =>
          obtain ⟨rfl, -⟩ := List.cons.inj h
          exact ⟨rfl, rfl, by simp, by simp⟩
        | cons x a => simp at h
      · next q qs hq =>
        have hfirst := ih (a := []) hq
        cases a with
        | nil =>
          obtain ⟨rfl, -⟩ := List.cons.inj h
          refine ⟨hfirst.number, hfirst.begins, by simp, fun u hu => ?_⟩
          rw [List.dropLast_cons_of_ne_nil hfirst.nonempty] at hu
          rcases List.mem_cons.mp hu with rfl | hu
          · simpa using ht
          · exact hfirst.one u hu
        | cons x a =>
          obtain ⟨rfl, rfl⟩ := List.cons.inj h
          obtain ⟨hnumber, hbegins, hne, hone⟩ := ih (a := q :: a) hq
          have hfront : (q :: a).flatMap LinePart.tokens ≠ [] := by
            simp [hfirst.nonempty]
          refine ⟨?_, ?_, hne, hone⟩
          · rw [hnumber]
            simp [endings, ht]
          · rw [hbegins, if_neg hfront]
            have hcons : ({ q with tokens := t :: q.tokens } :: a : List LinePart).flatMap
                LinePart.tokens = [t] ++ (q :: a).flatMap LinePart.tokens := by simp
            rw [hcons, if_neg (by simp), insideLine_append hfront]

end Ds4.Lib
