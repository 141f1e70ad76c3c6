import Ds4.Server.JsonRead
import Ds4.Server.Split

/-!
# Parsed arguments as JSON

A parser writes the arguments of a call as an object, one member a parameter. A string body is
escaped; another body is copied as JSON text where it begins with a JSON value, and as it is where
it does not. The object is read back with the members of its parameters exactly when every other
body is empty or begins with a value (`jsonArgsParse_argsObject`).
-/

namespace Ds4.Server

open Ds4.Lib

/-! ## Members -/

/-- A parameter whose body is a string. -/
def Param.IsText (p : Param) : Prop := p.isString = lit "true"

instance (p : Param) : Decidable p.IsText := inferInstanceAs (Decidable (_ = _))

/-- The member that a parameter stands for: its body, or the value that its text spells. -/
def Param.member (p : Param) : JsonArg :=
  if p.IsText then ⟨p.name, p.value, true⟩
  else
    match jsonString p.json with
    | some (s, []) => ⟨p.name, s, true⟩
    | _ => ⟨p.name, p.json, false⟩

/-- A body that can stand in an object: a string, nothing, or a text that begins with a value. -/
def Param.BodyIsJson (p : Param) : Prop :=
  p.IsText ∨ p.value = [] ∨ (jsonSkipValue p.value).isSome = true

/-- No NUL stands in what the parser passes on. -/
structure Param.NoNul (p : Param) : Prop where
  name : 0 ∉ p.name
  value : 0 ∉ p.value

/-- A parameter as a member of the argument text. -/
def Param.text (p : Param) : Bytes := jsonEscape p.name ++ lit ": " ++ p.json

/-- The members behind the first. -/
def argsRest (params : List Param) : Bytes := params.flatMap fun p => lit ", " ++ p.text

theorem foldl_argsAdd {acc : Bytes} (hacc : acc ≠ []) (params : List Param) :
    params.foldl argsAdd acc = acc ++ argsRest params := by
  induction params generalizing acc with
  | nil => simp [argsRest]
  | cons p params ih =>
    have hadd : argsAdd acc p = acc ++ (lit ", " ++ p.text) := by
      simp [argsAdd, hacc, Param.text]
    rw [List.foldl_cons, hadd, ih (by simp [hacc]), argsRest, argsRest, List.flatMap_cons,
      List.append_assoc]

@[simp] theorem argsMembers_nil : argsMembers [] = [] := rfl

theorem argsMembers_cons (p : Param) (params : List Param) :
    argsMembers (p :: params) = p.text ++ argsRest params := by
  have hfirst : argsAdd [] p = p.text := by simp [argsAdd, Param.text]
  rw [argsMembers, List.foldl_cons, hfirst, foldl_argsAdd (by simp [Param.text, jsonEscape])]

theorem argsRest_close (params : List Param) :
    argsRest params ++ lit "\x7d" = lit "\x7d" ∧ params = [] ∨
      ∃ p ps, params = p :: ps ∧
        argsRest params ++ lit "\x7d" = lit ", " ++ (p.text ++ (argsRest ps ++ lit "\x7d")) := by
  cases params with
  | nil => exact .inl ⟨rfl, rfl⟩
  | cons p ps => exact .inr ⟨p, ps, rfl, by simp [argsRest]⟩

/-! ## Reading a member -/

theorem follow_argsRest (params : List Param) : Follow (argsRest params ++ lit "\x7d") := by
  rcases argsRest_close params with ⟨h, -⟩ | ⟨p, ps, -, h⟩
  · rw [h]
    exact follow_cons (by simp)
  · rw [h]
    exact follow_cons (by simp)

theorem skipComma_argsRest (params : List Param) :
    jsonWs (skipComma (jsonWs (argsRest params ++ lit "\x7d"))) = argsMembers params ++ lit "\x7d" := by
  rcases argsRest_close params with ⟨h, rfl⟩ | ⟨p, ps, rfl, h⟩
  · rw [h]
    rfl
  · rw [h, argsMembers_cons]
    have hws : ∀ t : Bytes, jsonWs (skipComma (jsonWs (lit ", " ++ t))) = jsonWs t := by
      intro t
      have : jsonWs (lit ", " ++ t) = 44 :: 32 :: t := jsonWs_cons_of_not_space (by decide)
      rw [this, skipComma]
      exact jsonWs_space t
    rw [hws, Param.text, jsonEscape]
    simp only [List.append_assoc, List.cons_append]
    exact jsonWs_cons_of_not_space (by decide)

theorem jsonArg_text {p : Param} (hp : 0 ∉ p.name) (rest : Bytes) :
    jsonArg (p.text ++ rest) = (jsonArgValue p.name (jsonWs (p.json ++ rest))).map
      fun (arg, r) => (arg, jsonWs (skipComma (jsonWs r))) := by
  have hkey : jsonString (p.text ++ rest) = some (p.name, 58 :: 32 :: (p.json ++ rest)) := by
    have : p.text ++ rest = jsonEscape p.name ++ (58 :: 32 :: (p.json ++ rest)) := by
      rw [Param.text, List.append_assoc, List.append_assoc]
      rfl
    rw [this, jsonString_escape hp]
  have hcolon : strip (jsonWs (58 :: 32 :: (p.json ++ rest))) [58] = some (32 :: (p.json ++ rest)) := by
    rw [jsonWs_cons_of_not_space (by decide)]
    exact strip_append [58] _
  simp only [jsonArg, hkey, hcolon, jsonWs_space]

theorem jsonArgValue_string {s : Bytes} (hs : 0 ∉ s) (key rest : Bytes) :
    jsonArgValue key (jsonWs (jsonEscape s ++ rest)) = some (⟨key, s, true⟩, rest) := by
  have hws : jsonWs (jsonEscape s ++ rest) = jsonEscape s ++ rest :=
    jsonWs_cons_of_not_space (c := 34) (by decide)
  have hhead : (jsonEscape s ++ rest).head? = some 34 := rfl
  rw [hws, jsonArgValue, if_pos hhead, jsonString_escape hs]
  rfl

theorem spells_string {n : Nat} {x : Bytes} {v : Json} (h : Spells (jsonValue n) x v)
    (hx : x.head? = some 34) : ∃ s, v = .string s ∧ ∀ r, Follow r → jsonString (x ++ r) = some (s, r) := by
  obtain ⟨c, t, rfl, -⟩ := h.head
  obtain rfl : c = 34 := by simpa using hx
  have hstring : ∀ r, jsonValue n (34 :: t ++ r) =
      (jsonString (34 :: t ++ r)).map fun read => (.string read.1, read.2) := by
    intro r
    cases n <;>
    · rw [jsonValue, List.cons_append, jsonValueWith, jsonWs_cons_of_not_space (by decide)]
      rfl
  obtain ⟨⟨s, q⟩, hs, he⟩ := Option.map_eq_some_iff.mp ((hstring []).symm.trans (h.reads [] follow_nil))
  obtain ⟨rfl, rfl⟩ : Json.string s = v ∧ q = [] := by simpa using he
  refine ⟨s, rfl, fun r hr => ?_⟩
  obtain ⟨⟨s', q⟩, hs', he'⟩ := Option.map_eq_some_iff.mp ((hstring r).symm.trans (h.reads r hr))
  obtain ⟨rfl, rfl⟩ : s' = s ∧ q = r := by simpa using he'
  exact hs'

theorem jsonString_eq_none {c : UInt8} {t : Bytes} (hs : isSpace c = false) (hc : c ≠ 34) :
    jsonString (c :: t) = none := by
  rw [jsonString, jsonWs_cons_of_not_space hs]
  split
  · next h => exact absurd (List.cons.inj h).1 hc
  · rfl

theorem jsonRawValue_spells {x r : Bytes} {v : Json} (h : Spells (jsonValue jsonMaxNesting) x v)
    (hr : Follow r) : jsonRawValue (x ++ r) = some (x, r) := by
  obtain ⟨c, t, rfl, hc⟩ := h.head
  have hws : jsonWs (c :: t ++ r) = c :: t ++ r := jsonWs_cons_of_not_space hc
  rw [jsonRawValue, hws, jsonSkipValue, h.reads r hr]
  exact congrArg (fun y => some (y, r)) (upTo_append (c :: t) r)

theorem jsonMinifyRawValue_spells {x : Bytes} {v : Json}
    (h : Spells (jsonValue jsonMaxNesting) x v) : jsonMinifyRawValue x = compact x := by
  obtain ⟨c, t, rfl, hc⟩ := h.head
  have hws : jsonWs (c :: t) = c :: t := jsonWs_cons_of_not_space hc
  have hread := h.reads [] follow_nil
  rw [List.append_nil] at hread
  rw [jsonMinifyRawValue, hws, jsonSkipValue, hread]
  simp [upTo, compact]

theorem Spells.minified {n : Nat} {x : Bytes} {v : Json} (h : Spells (jsonValue n) x v) :
    Spells (jsonValue n) (compact x) v := by
  obtain ⟨c, t, rfl, hc⟩ := h.head
  obtain ⟨t', ht'⟩ := compact_cons (t := t) hc
  have hread := h.readsCompact [] follow_nil
  rw [List.append_nil] at hread
  obtain ⟨y, hy, hsp⟩ := (reads_jsonValue n).spells _ _ _ hread
  have : jsonWs (compact (c :: t)) = compact (c :: t) := by
    rw [ht']
    exact jsonWs_cons_of_not_space hc
  rw [this, List.append_nil] at hy
  rw [hy]
  exact hsp

theorem jsonArgValue_spells {p : Param} {x : Bytes} {v : Json}
    (h : Spells (jsonValue jsonMaxNesting) x v) (hp : ¬ p.IsText) (hjson : p.json = compact x)
    {rest : Bytes} (hrest : Follow rest) :
    jsonArgValue p.name (jsonWs (p.json ++ rest)) = some (p.member, rest) := by
  have hmin := h.minified
  obtain ⟨c, t, ht, hc⟩ := hmin.head
  have hws : jsonWs (compact x ++ rest) = compact x ++ rest := by
    rw [ht]
    exact jsonWs_cons_of_not_space hc
  have hhead : (compact x ++ rest).head? = some c := by rw [ht]; rfl
  rw [hjson, hws, jsonArgValue, hhead, Param.member, if_neg hp, hjson]
  by_cases hq : c = 34
  · subst hq
    obtain ⟨s, -, hs⟩ := spells_string hmin (by rw [ht]; rfl)
    have hs0 := hs [] follow_nil
    rw [List.append_nil] at hs0
    rw [if_pos rfl, hs rest hrest, hs0]
    rfl
  · have hnone : jsonString (compact x) = none := by
      rw [ht]
      exact jsonString_eq_none hc hq
    rw [if_neg (by simpa using hq), jsonRawValue_spells hmin hrest, hnone]
    simp only [Option.map_some, jsonMinifyRawValue_spells hmin, compact_compact]

theorem exists_spells {p : Bytes} (h : (jsonSkipValue p).isSome = true) :
    ∃ x v, Spells (jsonValue jsonMaxNesting) x v ∧ jsonMinifyRawValue p = compact x := by
  obtain ⟨r, hr⟩ := Option.isSome_iff_exists.mp h
  obtain ⟨⟨v, r'⟩, hv, rfl⟩ := Option.map_eq_some_iff.mp hr
  obtain ⟨x, hx, hsp⟩ := (reads_jsonValue _).spells _ _ _ hv
  refine ⟨x, v, hsp, ?_⟩
  have hskip : jsonSkipValue (jsonWs p) = some r' := by
    rw [jsonSkipValue, (reads_jsonValue _).skip, hv]
    rfl
  rw [jsonMinifyRawValue, hskip, hx]
  simp [compact]

/-- **A member whose body is JSON is read back, up to the text behind it.** -/
theorem jsonArg_member {p : Param} (hnul : p.NoNul) (hp : p.BodyIsJson) {rest : Bytes}
    (hrest : Follow rest) :
    jsonArg (p.text ++ rest) = some (p.member, jsonWs (skipComma (jsonWs rest))) := by
  rw [jsonArg_text hnul.name]
  by_cases htext : p.IsText
  · have hjson : p.json = jsonEscape p.value := if_pos htext
    rw [hjson, jsonArgValue_string hnul.value, Param.member, if_pos htext]
    rfl
  · have hjson : p.json = if jsonMinifyRawValue p.value = [] then lit "null"
        else jsonMinifyRawValue p.value := if_neg htext
    have hmin : ∃ x v, Spells (jsonValue jsonMaxNesting) x v ∧ p.json = compact x := by
      rcases hp with h | h | h
      · exact absurd h htext
      · obtain ⟨x, v, hsp, hx⟩ := exists_spells (p := lit "null") (by decide)
        refine ⟨x, v, hsp, ?_⟩
        rw [hjson, h, ← hx]
        decide
      · obtain ⟨x, v, hsp, hx⟩ := exists_spells h
        obtain ⟨c, t, ht, -⟩ := hsp.minified.head
        refine ⟨x, v, hsp, ?_⟩
        rw [hjson, hx, if_neg (by rw [ht]; simp)]
    obtain ⟨x, v, hsp, hx⟩ := hmin
    rw [jsonArgValue_spells hsp htext hx hrest]
    rfl

/-! ## Reading the object -/

/-- The closing bracket of the arguments. -/
def argsStop (q : Bytes) : Option Bytes := strip q [125]

theorem consumes_jsonArg : Consumes jsonArg := by
  intro p a r h
  have hsuffix : ∀ t q : Bytes, t <:+ q → ∃ y, q = y ++ t := fun t q ⟨y, hy⟩ => ⟨y, hy.symm⟩
  unfold jsonArg at h
  split at h
  · simp at h
  · next key q hkey =>
    split at h
    · simp at h
    · next r' hr' =>
      obtain ⟨⟨arg, r''⟩, harg, he⟩ := Option.map_eq_some_iff.mp h
      obtain ⟨rfl, hr⟩ : arg = a ∧ jsonWs (skipComma (jsonWs r'')) = r := by simpa using he
      obtain ⟨x, hx, hlit⟩ := jsonString_eq_some hkey
      obtain ⟨t, rfl⟩ := hlit.head
      obtain ⟨w, -, hp⟩ := exists_jsonWs p
      obtain ⟨-, w', -, rfl⟩ := strip_jsonWs hr'
      have hval : r'' <:+ r' := by
        refine List.IsSuffix.trans ?_ (suffix_jsonWs r')
        unfold jsonArgValue at harg
        split_ifs at harg
        · obtain ⟨⟨s, q⟩, hs, hq⟩ := Option.map_eq_some_iff.mp harg
          obtain ⟨-, rfl⟩ : _ ∧ q = r'' := by simpa using hq
          obtain ⟨y, hy, -⟩ := jsonString_eq_some hs
          rw [jsonWs_jsonWs] at hy
          exact ⟨y, hy.symm⟩
        · obtain ⟨⟨s, q⟩, hs, hq⟩ := Option.map_eq_some_iff.mp harg
          obtain ⟨-, rfl⟩ : _ ∧ q = r'' := by simpa using hq
          obtain ⟨q', hskip, hq'⟩ := Option.map_eq_some_iff.mp hs
          obtain ⟨-, rfl⟩ : _ ∧ q' = q := by simpa using hq'
          obtain ⟨⟨v, q''⟩, hv, rfl⟩ := Option.map_eq_some_iff.mp hskip
          obtain ⟨y, hy, -⟩ := (reads_jsonValue _).spells _ _ _ hv
          rw [jsonWs_jsonWs, jsonWs_jsonWs] at hy
          exact ⟨y, hy.symm⟩
      have hcomma : skipComma (jsonWs r'') <:+ jsonWs r'' := by
        unfold skipComma
        cases hs : strip (jsonWs r'') [44] with
        | none => exact List.suffix_rfl
        | some t => exact ⟨[44], (strip_eq_some.1 hs).symm⟩
      obtain ⟨y, hy⟩ := hsuffix r r' (hr ▸ (suffix_jsonWs _).trans
        (hcomma.trans ((suffix_jsonWs _).trans hval)))
      exact ⟨w ++ 34 :: t ++ (w' ++ 58 :: y), by simp, by rw [hp, hx, hy]; simp⟩

theorem jsonArgsParse_argsObject_eq (params : List Param) :
    jsonArgsParse (argsObject params) =
      (readAll argsStop jsonArg (argsMembers params ++ lit "\x7d")).map Prod.fst := by
  have hopen : strip (jsonWs (argsObject params)) [123] =
      some (argsMembers params ++ lit "\x7d") := by
    have : jsonWs (argsObject params) = 123 :: (argsMembers params ++ lit "\x7d") := by
      rw [argsObject, List.append_assoc]
      exact jsonWs_cons_of_not_space (by decide)
    rw [this]
    exact strip_append [123] _
  have hws : jsonWs (argsMembers params ++ lit "\x7d") = argsMembers params ++ lit "\x7d" := by
    cases params with
    | nil => rfl
    | cons p ps =>
      rw [argsMembers_cons, Param.text, jsonEscape]
      simp only [List.append_assoc, List.cons_append]
      exact jsonWs_cons_of_not_space (by decide)
  rw [jsonArgsParse, hopen]
  simp only [hws]
  rfl

theorem argsStop_text (p : Param) (r : Bytes) : argsStop (p.text ++ r) = none := by
  refine strip_eq_none.2 fun h => ?_
  exact absurd (List.cons_prefix_cons.mp h).1 (by decide)

theorem many_members {params : List Param} (h : ∀ p ∈ params, p.NoNul ∧ p.BodyIsJson) :
    Many argsStop jsonArg (argsMembers params ++ lit "\x7d") (params.map Param.member) [] := by
  induction params with
  | nil => exact .nil rfl
  | cons p ps ih =>
    obtain ⟨hnul, hjson⟩ := h p List.mem_cons_self
    rw [argsMembers_cons, List.append_assoc, List.map_cons]
    refine .cons (argsStop_text p _) (jsonArg_member hnul hjson (follow_argsRest ps)) ?_
    rw [skipComma_argsRest]
    exact ih fun q hq => h q (List.mem_cons_of_mem p hq)

theorem jsonArgsParse_of_json {params : List Param}
    (h : ∀ p ∈ params, p.NoNul ∧ p.BodyIsJson) :
    jsonArgsParse (argsObject params) = some (params.map Param.member) := by
  rw [jsonArgsParse_argsObject_eq, (readAll_eq_some consumes_jsonArg).mpr (many_members h)]
  rfl

/-! ## Nested members -/

/-- A member of an object whose value is read one level down. -/
def Param.NestedIsJson (p : Param) : Prop :=
  p.IsText ∨ p.value = [] ∨ (jsonValue (jsonMaxNesting - 1) p.value).isSome = true

theorem exists_nested_value {p : Param} (hnul : p.NoNul) (h : p.NestedIsJson) :
    ∃ v, ReadsAs Follow (jsonValue (jsonMaxNesting - 1)) p.json v := by
  by_cases htext : p.IsText
  · have hjson : p.json = jsonEscape p.value := if_pos htext
    refine ⟨.string p.value, fun r _ => ?_⟩
    have hread := jsonString_escape hnul.value r
    rw [hjson]
    change jsonString (34 :: (jsonEscapeLoop p.value ++ [34] ++ r)) = _ at hread
    change jsonValue 255 (34 :: (jsonEscapeLoop p.value ++ [34] ++ r)) = _
    rw [jsonValue, jsonValueWith, jsonWs_cons_of_not_space (by decide)]
    simp only [hread, Option.map_some]
  · have hjson : p.json = if jsonMinifyRawValue p.value = [] then lit "null"
        else jsonMinifyRawValue p.value := if_neg htext
    rcases h with h | h | h
    · exact absurd h htext
    · have hnull : p.json = lit "null" := by
        rw [hjson, h]
        decide
      refine ⟨.word (lit "null"), fun r _ => ?_⟩
      rw [hnull]
      change jsonValue 255 (110 :: 117 :: 108 :: 108 :: r) = _
      rw [jsonValue, jsonValueWith_scalar ⟨by decide, by decide, by decide, by decide⟩]
      exact jsonScalar_word (w := lit "null") (by simp)
    · obtain ⟨⟨v, r⟩, hv⟩ := Option.isSome_iff_exists.mp h
      obtain ⟨x, hx, hsp⟩ := (reads_jsonValue _).spells _ _ _ hv
      obtain ⟨c, t, ht, -⟩ := hsp.minified.head
      have hskip : jsonSkipValue (jsonWs p.value) = some r := by
        rw [jsonSkipValue, (reads_jsonValue _).skip, show jsonMaxNesting = jsonMaxNesting - 1 + 1 from rfl,
          jsonValue_succ hv]
        rfl
      have hmin : jsonMinifyRawValue p.value = compact x := by
        rw [jsonMinifyRawValue, hskip, hx]
        simp [compact]
      refine ⟨v, ?_⟩
      rw [hjson, hmin, if_neg (by rw [ht]; simp)]
      exact hsp.readsCompact

theorem jsonMember_text {p : Param} (hnul : p.NoNul) (h : p.NestedIsJson) :
    ∃ v, ∀ r, Follow r →
      jsonMember (jsonValue (jsonMaxNesting - 1)) (p.text ++ r) = some ((p.name, v), r) := by
  obtain ⟨v, hv⟩ := exists_nested_value hnul h
  refine ⟨v, fun r hr => ?_⟩
  have hkey : jsonString (p.text ++ r) = some (p.name, 58 :: 32 :: (p.json ++ r)) := by
    have : p.text ++ r = jsonEscape p.name ++ (58 :: 32 :: (p.json ++ r)) := by
      rw [Param.text, List.append_assoc, List.append_assoc]
      rfl
    rw [this, jsonString_escape hnul.name]
  have hcolon : strip (jsonWs (58 :: 32 :: (p.json ++ r))) [58] = some (32 :: (p.json ++ r)) := by
    rw [jsonWs_cons_of_not_space (by decide)]
    exact strip_append [58] _
  have hval : jsonValue (jsonMaxNesting - 1) (32 :: (p.json ++ r)) = some (v, r) := by
    rw [← (reads_jsonValue _).skip, jsonWs_space, (reads_jsonValue _).skip, hv r hr]
  simp only [jsonMember, hkey, hcolon, hval, Option.map_some]

/-- **Nested members whose bodies are JSON form a JSON object.** -/
theorem nested_isJson {members : List Param} (h : ∀ p ∈ members, p.NoNul ∧ p.NestedIsJson) :
    (jsonSkipValue (argsObject members)).isSome = true := by
  have hvalue := reads_jsonMember (reads_jsonValue (jsonMaxNesting - 1))
  have hmany : ∀ ms : List Param, (∀ p ∈ ms, p.NoNul ∧ p.NestedIsJson) → ∃ vs,
      Many (fun p => strip (jsonWs p) [125]) (jsonNext (jsonMember (jsonValue (jsonMaxNesting - 1))))
        (argsRest ms ++ lit "\x7d") vs [] := by
    intro ms
    induction ms with
    | nil => exact fun _ => ⟨[], .nil rfl⟩
    | cons p ps ih =>
      intro hms
      obtain ⟨hnul, hp⟩ := hms p List.mem_cons_self
      obtain ⟨vs, hvs⟩ := ih fun q hq => hms q (List.mem_cons_of_mem p hq)
      obtain ⟨v, hv⟩ := jsonMember_text hnul hp
      have hrest : argsRest (p :: ps) ++ lit "\x7d" =
          44 :: 32 :: (p.text ++ (argsRest ps ++ lit "\x7d")) := by
        simp [argsRest]
        rfl
      refine ⟨(p.name, v) :: vs, ?_⟩
      rw [hrest]
      refine .cons (strip_jsonWs_ne (w := []) (by simp) (by decide) (by decide)) ?_ hvs
      have hcomma : strip (jsonWs (44 :: 32 :: (p.text ++ (argsRest ps ++ lit "\x7d")))) [44] =
          some (32 :: (p.text ++ (argsRest ps ++ lit "\x7d"))) :=
        strip_jsonWs_append (w := []) (by simp) (by decide)
      simp only [jsonNext, hcomma]
      rw [← hvalue.skip, jsonWs_space, hvalue.skip, hv _ (follow_argsRest ps)]
  have hseq : ∃ vs, jsonSequence (jsonMember (jsonValue (jsonMaxNesting - 1))) 125
      (argsMembers members ++ lit "\x7d") = some (vs, []) := by
    cases members with
    | nil => exact ⟨[], rfl⟩
    | cons p ps =>
      obtain ⟨hnul, hp⟩ := h p List.mem_cons_self
      obtain ⟨v, hv⟩ := jsonMember_text hnul hp
      obtain ⟨vs, hvs⟩ := hmany ps fun q hq => h q (List.mem_cons_of_mem p hq)
      have hno : strip (jsonWs (p.text ++ (argsRest ps ++ lit "\x7d"))) [125] = none :=
        strip_jsonWs_ne (w := []) (by simp) (c := 34) (by decide) (by decide)
      refine ⟨(p.name, v) :: vs, ?_⟩
      rw [argsMembers_cons, List.append_assoc, jsonSequence, hno]
      simp only [jsonItems, hv _ (follow_argsRest ps),
        (readAll_eq_some (consumes_jsonNext hvalue)).mpr hvs, Option.map_some]
  obtain ⟨vs, hvs⟩ := hseq
  have hread : jsonValue jsonMaxNesting (argsObject members) = some (.object vs, []) := by
    rw [show jsonMaxNesting = jsonMaxNesting - 1 + 1 from rfl, jsonValue]
    change jsonValueWith _ (123 :: (argsMembers members ++ lit "\x7d")) = _
    rw [jsonValueWith, jsonWs_cons_of_not_space (by decide)]
    simp only [Option.bind_some, hvs, Option.map_some]
  simp [jsonSkipValue, hread]

/-! ## A body that is not JSON -/

theorem minifyCopy_sublist (q e : Bool) (x : Bytes) : (minifyCopy q e x).Sublist x := by
  induction x generalizing q e with
  | nil => cases q <;> exact List.Sublist.slnil
  | cons c x ih =>
    cases q with
    | true =>
      rw [minifyCopy]
      split_ifs <;> exact (ih _ _).cons_cons c
    | false =>
      rw [minifyCopy]
      split_ifs
      · exact (ih _ _).cons_cons c
      · exact (ih _ _).cons_cons c
      · exact (ih _ _).cons c

theorem minifyCopy_append (q e : Bool) (x : Bytes) :
    ∃ q' e', ∀ y, minifyCopy q e (x ++ y) = minifyCopy q e x ++ minifyCopy q' e' y := by
  induction x generalizing q e with
  | nil => exact ⟨q, e, fun y => by cases q <;> rfl⟩
  | cons c x ih =>
    cases q with
    | true =>
      by_cases h1 : e = true
      · obtain ⟨q', e', h⟩ := ih true false
        exact ⟨q', e', fun y => by simp [minifyCopy, h1, h y]⟩
      · by_cases h2 : c = 92
        · obtain ⟨q', e', h⟩ := ih true true
          exact ⟨q', e', fun y => by simp [minifyCopy, h1, h2, h y]⟩
        · by_cases h3 : c = 34
          · obtain ⟨q', e', h⟩ := ih false false
            exact ⟨q', e', fun y => by simp [minifyCopy, h1, h3, h y]⟩
          · obtain ⟨q', e', h⟩ := ih true false
            exact ⟨q', e', fun y => by simp [minifyCopy, h1, h2, h3, h y]⟩
    | false =>
      by_cases h1 : c = 34
      · obtain ⟨q', e', h⟩ := ih true e
        exact ⟨q', e', fun y => by simp [minifyCopy, h1, h y]⟩
      · obtain ⟨q', e', h⟩ := ih false e
        by_cases h2 : isSpace c = true
        · exact ⟨q', e', fun y => by simp [minifyCopy, h1, h2, h y]⟩
        · exact ⟨q', e', fun y => by simp [minifyCopy, h1, h2, h y]⟩

theorem minifyCopy_ne_nil {c : UInt8} (hc : isSpace c = false) (q e : Bool) (y : Bytes) :
    minifyCopy q e (c :: y) ≠ [] := by
  cases q with
  | true => simp [minifyCopy]
  | false =>
    rw [minifyCopy]
    split_ifs <;> simp_all

theorem argsRest_head (params : List Param) :
    ∃ c t, argsRest params ++ lit "\x7d" = c :: t ∧ isSpace c = false := by
  rcases argsRest_close params with ⟨h, -⟩ | ⟨p, ps, -, h⟩
  · exact ⟨125, [], h, by decide⟩
  · exact ⟨44, 32 :: (p.text ++ (argsRest ps ++ lit "\x7d")), h, by decide⟩

theorem skip_of_compact {t rest x q : Bytes} {v : Json}
    (hx : jsonWs (t ++ rest) = x ++ q) (hsp : Spells (jsonValue jsonMaxNesting) x v)
    (hcompact : compact x = t)
    (hrest : ∃ c s, rest = c :: s ∧ isSpace c = false) : (jsonSkipValue t).isSome = true := by
  obtain ⟨c, u, hcu, hc⟩ := hsp.head
  have hhead : ∃ u', t = c :: u' := by
    obtain ⟨u', hu'⟩ := compact_cons (t := u) hc
    exact ⟨u', by rw [← hcompact, hcu, hu']⟩
  obtain ⟨u', hu'⟩ := hhead
  have hws : jsonWs (t ++ rest) = t ++ rest := by
    rw [hu']
    exact jsonWs_cons_of_not_space hc
  rw [hws] at hx
  have hlen : t.length ≤ x.length := by
    rw [← hcompact]
    exact (minifyCopy_sublist false false x).length_le
  obtain ⟨y, hy⟩ : t <+: x :=
    List.prefix_of_prefix_length_le (List.prefix_append t rest) ⟨q, hx.symm⟩ hlen
  cases y with
  | nil =>
    rw [List.append_nil] at hy
    have := hsp.reads [] follow_nil
    rw [List.append_nil, ← hy] at this
    simp [jsonSkipValue, this]
  | cons d y =>
    exfalso
    obtain ⟨e, s, rfl, he⟩ := hrest
    have hd : d = e := by
      rw [← hy, List.append_assoc] at hx
      exact (List.cons.inj (List.append_cancel_left hx)).1.symm
    obtain ⟨q', e', happ⟩ := minifyCopy_append false false t
    have htt : minifyCopy false false t = t := by
      rw [← hcompact]
      exact compact_compact x
    have hall := happ (d :: y)
    rw [hy, htt] at hall
    have : minifyCopy q' e' (d :: y) = [] := by
      have h2 : t ++ minifyCopy q' e' (d :: y) = t ++ [] := by
        rw [List.append_nil, ← hall]
        exact hcompact
      exact List.append_cancel_left h2
    exact minifyCopy_ne_nil (hd ▸ he) q' e' y this

/-- **A parameter is read back as its member only where its body is JSON.** -/
theorem bodyIsJson_of_member {p : Param} (hname : 0 ∉ p.name) {ps : List Param} {r : Bytes}
    (h : jsonArg (p.text ++ (argsRest ps ++ lit "\x7d")) = some (p.member, r)) : p.BodyIsJson := by
  by_contra hno
  obtain ⟨htext, hempty, hskip⟩ : ¬ p.IsText ∧ p.value ≠ [] ∧ jsonSkipValue p.value = none := by
    simpa [Param.BodyIsJson] using hno
  have hskip' : jsonSkipValue (jsonWs p.value) = none := by
    rw [jsonSkipValue, (reads_jsonValue _).skip]
    exact hskip
  have hmin : jsonMinifyRawValue p.value = p.value := by rw [jsonMinifyRawValue, hskip']
  have hjson : p.json = p.value := by
    have : p.json = if jsonMinifyRawValue p.value = [] then lit "null"
        else jsonMinifyRawValue p.value := if_neg htext
    rw [this, hmin, if_neg hempty]
  have hnot : ∀ s, jsonString p.value ≠ some (s, []) := by
    intro s hs
    obtain ⟨x, hx, hlit⟩ := jsonString_eq_some hs
    obtain ⟨t, ht⟩ := hlit.head
    have hread := hlit.reads []
    rw [List.append_nil] at hx hread
    have : jsonValue jsonMaxNesting x = some (.string s, []) := by
      rw [ht] at hread ⊢
      rw [jsonMaxNesting, jsonValue, jsonValueWith, jsonWs_cons_of_not_space (by decide)]
      simp [hread]
    rw [← hx, (reads_jsonValue _).skip] at this
    simp [jsonSkipValue, this] at hskip
  have hmember : p.member = ⟨p.name, p.value, false⟩ := by
    rw [Param.member, if_neg htext, hjson]
    split
    · next s hs => exact absurd hs (hnot s)
    · rfl
  rw [jsonArg_text hname, hjson] at h
  obtain ⟨⟨arg, r'⟩, harg, he⟩ := Option.map_eq_some_iff.mp h
  obtain ⟨rfl, -⟩ : arg = p.member ∧ _ := by simpa using he
  unfold jsonArgValue at harg
  split_ifs at harg with hq
  · obtain ⟨⟨s, q⟩, -, hs⟩ := Option.map_eq_some_iff.mp harg
    have : (⟨p.name, s, true⟩ : JsonArg) = p.member := (Prod.mk.inj hs).1
    rw [hmember] at this
    simp at this
  · obtain ⟨⟨raw, q⟩, hraw, hs⟩ := Option.map_eq_some_iff.mp harg
    have hmem : (⟨p.name, jsonMinifyRawValue raw, false⟩ : JsonArg) = p.member := (Prod.mk.inj hs).1
    obtain ⟨q', hq', he'⟩ := Option.map_eq_some_iff.mp hraw
    obtain ⟨hraw', rfl⟩ : upTo _ q' = raw ∧ q' = q := by simpa using he'
    obtain ⟨⟨v, q''⟩, hv, rfl⟩ := Option.map_eq_some_iff.mp hq'
    obtain ⟨x, hx, hsp⟩ := (reads_jsonValue _).spells _ _ _ hv
    simp only [jsonWs_jsonWs] at hx hraw'
    rw [hx, upTo_append] at hraw'
    subst hraw'
    rw [hmember, jsonMinifyRawValue_spells hsp] at hmem
    have := skip_of_compact hx hsp (by simpa using hmem) (argsRest_head ps)
    rw [hskip] at this
    simp at this

theorem bodyIsJson_of_many {params : List Param} {r : Bytes} (hnul : ∀ p ∈ params, p.NoNul)
    (h : Many argsStop jsonArg (argsMembers params ++ lit "\x7d") (params.map Param.member) r) :
    ∀ p ∈ params, p.BodyIsJson := by
  induction params with
  | nil => simp
  | cons p ps ih =>
    rw [argsMembers_cons, List.append_assoc, List.map_cons] at h
    cases h with
    | cons _ hread hrest =>
      have hp := bodyIsJson_of_member (hnul p List.mem_cons_self).name hread
      rw [jsonArg_member (hnul p List.mem_cons_self) hp (follow_argsRest ps)] at hread
      have hq := (Prod.mk.inj (Option.some.inj hread)).2
      rw [← hq, skipComma_argsRest] at hrest
      intro q hq
      rcases List.mem_cons.mp hq with rfl | hq
      · exact hp
      · exact ih (fun q hq => hnul q (List.mem_cons_of_mem p hq)) hrest q hq

/-- **The arguments are read back member by member exactly when every body is JSON.** -/
theorem jsonArgsParse_argsObject {params : List Param} (hnul : ∀ p ∈ params, p.NoNul) :
    jsonArgsParse (argsObject params) = some (params.map Param.member) ↔
      ∀ p ∈ params, p.BodyIsJson := by
  constructor
  · intro h
    rw [jsonArgsParse_argsObject_eq] at h
    obtain ⟨⟨as, r⟩, hread, he⟩ := Option.map_eq_some_iff.mp h
    obtain rfl : as = params.map Param.member := he
    exact bodyIsJson_of_many hnul ((readAll_eq_some consumes_jsonArg).mp hread)
  · exact fun h => jsonArgsParse_of_json fun p hp => ⟨hnul p hp, h p hp⟩

/-! ## The parameters of a parsed text -/

theorem dsmlUnescapeFrom_noNul {s : Bytes} (h : 0 ∉ s) (k : Nat) : 0 ∉ dsmlUnescapeFrom k s := by
  induction s generalizing k with
  | nil => cases k <;> simp [dsmlUnescapeFrom]
  | cons c s ih =>
    obtain ⟨hc, hs⟩ : 0 ≠ c ∧ 0 ∉ s := by simpa using h
    cases k with
    | succ k => exact ih hs k
    | zero =>
      rw [dsmlUnescapeFrom]
      split_ifs <;> simp [hc, ih hs]

theorem toolTextUnescapeFrom_noNul {s : Bytes} (h : 0 ∉ s) (fin : Bytes) (k : Nat) :
    0 ∉ toolTextUnescapeFrom fin k s := by
  induction s generalizing k with
  | nil => cases k <;> simp [toolTextUnescapeFrom]
  | cons c s ih =>
    obtain ⟨hc, hs⟩ : 0 ≠ c ∧ 0 ∉ s := by simpa using h
    cases k with
    | succ k => exact ih hs k
    | zero =>
      rw [toolTextUnescapeFrom]
      split_ifs <;> simp [hc, ih hs]

theorem cut_noNul {s n a b : Bytes} (h : cut s n = some (a, b)) (hs : 0 ∉ s) : 0 ∉ a ∧ 0 ∉ b := by
  obtain ⟨rfl, -⟩ := cut_eq_some.1 h
  simp only [List.mem_append, not_or] at hs
  exact ⟨hs.1.1, hs.2⟩

theorem noNul_of_suffix {s t : Bytes} (h : t <:+ s) (hs : 0 ∉ s) : 0 ∉ t := fun ht =>
  hs (h.mem ht)

theorem dsmlAttr_noNul {tag name value : Bytes} (h : dsmlAttr tag name = some value)
    (ht : 0 ∉ tag) : 0 ∉ value := by
  unfold dsmlAttr at h
  split at h
  · simp at h
  · next a p hp =>
    obtain ⟨⟨raw, r⟩, hraw, rfl⟩ := Option.map_eq_some_iff.mp h
    exact dsmlUnescapeFrom_noNul (cut_noNul hraw (cut_noNul hp ht).2).1 0

set_option maxRecDepth 10000 in
theorem jsonEscape_noNul (s : Bytes) : 0 ∉ jsonEscape s := by
  have hbyte : ∀ c, 0 ∉ jsonEscapeByte c := by
    refine forall_byte ?_
    decide
  simp [jsonEscape, jsonEscapeLoop_eq, jsonEscapeFragment, hbyte]

theorem jsonMinifyRawValue_noNul {s : Bytes} (h : 0 ∉ s) : 0 ∉ jsonMinifyRawValue s := by
  unfold jsonMinifyRawValue
  split
  · exact h
  · intro hm
    exact noNul_of_suffix (suffix_jsonWs s) h
      (List.mem_of_mem_take ((minifyCopy_sublist _ _ _).mem hm))

theorem argsObject_noNul {params : List Param} (h : ∀ p ∈ params, p.NoNul) :
    0 ∉ argsObject params := by
  have htext : ∀ p ∈ params, 0 ∉ p.text := by
    intro p hp
    have hjson : 0 ∉ p.json := by
      unfold Param.json
      dsimp only
      split_ifs
      · exact jsonEscape_noNul _
      · decide
      · exact jsonMinifyRawValue_noNul (h p hp).value
    have hcolon : (0 : UInt8) ∉ lit ": " := by decide
    simp [Param.text, jsonEscape_noNul, hcolon, hjson]
  have hclose : (0 : UInt8) ∉ lit "\x7b" ∧ (0 : UInt8) ∉ lit "\x7d" ∧ (0 : UInt8) ∉ lit ", " := by decide
  cases params with
  | nil => simp [argsObject, hclose]
  | cons p ps =>
    have hrest : 0 ∉ argsRest ps := by
      rw [argsRest, List.mem_flatMap]
      rintro ⟨q, hq, hmem⟩
      rcases List.mem_append.mp hmem with hm | hm
      · exact hclose.2.2 hm
      · exact htext q (List.mem_cons_of_mem p hq) hm
    simp [argsObject, argsMembers_cons, hclose, htext p List.mem_cons_self, hrest]

section Dsml

variable (m : DsmlMarks)

theorem paramTag_noNul {p name value : Bytes} {isString : Option Bytes}
    (h : paramTag m p = some (name, isString, value)) (hp : 0 ∉ p) : 0 ∉ name ∧ 0 ∉ value := by
  unfold paramTag at h
  split_ifs at h
  split at h
  · simp at h
  · next tag v hcut =>
    obtain ⟨name', hattr, he⟩ := Option.map_eq_some_iff.mp h
    obtain ⟨rfl, -, rfl⟩ : name' = name ∧ _ ∧ v = value := by simpa using he
    obtain ⟨htag, hv⟩ := cut_noNul hcut hp
    exact ⟨dsmlAttr_noNul hattr (by simp [htag]), hv⟩

theorem preserves_paramBody {name : Bytes} (hname : 0 ∉ name) (isString : Option Bytes) :
    Preserves (0 ∉ ·) (paramBody m name isString) Param.NoNul := by
  intro value p r hv h
  obtain ⟨⟨raw, r'⟩, hcut, he⟩ := Option.map_eq_some_iff.mp h
  obtain ⟨hraw, hr⟩ := cut_noNul hcut hv
  obtain ⟨rfl, rfl⟩ := Prod.mk.inj he
  refine ⟨⟨hname, ?_⟩, hr⟩
  dsimp only
  split_ifs
  · exact toolTextUnescapeFrom_noNul hraw _ _
  · exact hraw

theorem preserves_leafParam : Preserves (0 ∉ ·) (leafParam m) Param.NoNul := by
  intro p a r hp h
  unfold leafParam at h
  split at h
  · simp at h
  · next name isString value htag =>
    obtain ⟨hname, hv⟩ := paramTag_noNul m htag hp
    exact preserves_paramBody m hname isString value a r hv h

/-- A parameter of a call without NUL. -/
def DsmlParam.NoNul (p : DsmlParam) : Prop := p.param.NoNul

theorem preserves_nestedParams :
    Preserves (0 ∉ ·) (nestedParams m) fun ms => ∀ p ∈ ms, p.NoNul := by
  intro p ms r hp h
  obtain ⟨⟨ms', r'⟩, hread, he⟩ := Option.bind_eq_some_iff.mp h
  dsimp only at he
  split_ifs at he
  obtain ⟨rfl, rfl⟩ : ms' = ms ∧ r' = r := by simpa using he
  refine preserves_readAll (P := (0 ∉ ·)) ?_ ?_ p ms' r' hp hread
  · intro q r hq hs
    split_ifs at hs
    obtain rfl := Option.some.inj hs
    exact noNul_of_suffix (suffix_jsonWs q) hq
  · exact fun q a r hq h => preserves_leafParam m _ a r (noNul_of_suffix (suffix_jsonWs q) hq) h

theorem preserves_param : Preserves (0 ∉ ·) (param m) DsmlParam.NoNul := by
  intro p a r hp h
  unfold param at h
  split at h
  · simp at h
  · next name isString value htag =>
    obtain ⟨hname, hv⟩ := paramTag_noNul m htag hp
    split_ifs at h
    · obtain ⟨⟨ms, r'⟩, hread, he⟩ := Option.map_eq_some_iff.mp h
      obtain ⟨rfl, rfl⟩ := Prod.mk.inj he
      obtain ⟨hms, hr⟩ := preserves_nestedParams m value ms r' hv hread
      refine ⟨⟨hname, argsObject_noNul hms⟩, ?_⟩
      have hws : 0 ∉ jsonWs r' := noNul_of_suffix (suffix_jsonWs r') hr
      cases hs : strip (jsonWs r') m.paramEnd with
      | none => exact hws
      | some t => exact noNul_of_suffix ⟨_, (strip_eq_some.1 hs).symm⟩ hws
    · obtain ⟨⟨q, r'⟩, hread, he⟩ := Option.map_eq_some_iff.mp h
      obtain ⟨rfl, rfl⟩ := Prod.mk.inj he
      exact preserves_paramBody m hname isString value q r' hv hread

theorem noNul_strip {q n r : Bytes} (hq : 0 ∉ q) (h : strip (jsonWs q) n = some r) : 0 ∉ r :=
  noNul_of_suffix (List.IsSuffix.trans ⟨n, (strip_eq_some.1 h).symm⟩ (suffix_jsonWs q)) hq

theorem preserves_invoke :
    Preserves (0 ∉ ·) (invoke m) fun c => ∀ p ∈ c.2, DsmlParam.NoNul p := by
  intro p c r hp h
  unfold invoke at h
  split_ifs at h
  split at h
  · simp at h
  · next tag q hcut =>
    obtain ⟨name, -, h⟩ := Option.bind_eq_some_iff.mp h
    obtain ⟨⟨ps, r'⟩, hread, he⟩ := Option.map_eq_some_iff.mp h
    obtain ⟨rfl, rfl⟩ := Prod.mk.inj he
    refine preserves_readAll (fun _ _ hq hs => noNul_strip hq hs) ?_ q ps r' (cut_noNul hcut hp).2 hread
    exact fun q a r hq h => preserves_param m _ a r (noNul_of_suffix (suffix_jsonWs q) hq) h

theorem preserves_invokes :
    Preserves (0 ∉ ·) (invokes m) fun cs => ∀ c ∈ cs, ∀ p ∈ c.2, DsmlParam.NoNul p :=
  preserves_readAll (fun _ _ hq hs => noNul_strip hq hs) fun q a r hq h =>
    preserves_invoke m _ a r (noNul_of_suffix (suffix_jsonWs q) hq) h

end Dsml

/-! ## The members of any argument object -/

/-- What `json_args_parse` yields: strings without NUL, and minified values that are no strings. -/
structure JsonArg.Canonical (a : JsonArg) : Prop where
  key : 0 ∉ a.key
  value : 0 ∉ a.value
  json : a.isString = false → ∃ v, Spells (jsonValue jsonMaxNesting) a.value v
  minified : a.isString = false → compact a.value = a.value
  unquoted : a.isString = false → a.value.head? ≠ some 34

theorem cString_noNul (s : Bytes) : 0 ∉ cString s := by
  intro h
  have := List.mem_takeWhile_imp h
  simp at this

theorem jsonString_noNul {p s r : Bytes} (h : jsonString p = some (s, r)) : 0 ∉ s := by
  unfold jsonString at h
  split at h
  · obtain ⟨⟨chunks, r'⟩, -, he⟩ := Option.map_eq_some_iff.mp h
    rw [← (Prod.mk.inj he).1]
    exact cString_noNul _
  · simp at h

theorem canonical_of_jsonArgValue {key p r : Bytes} {a : JsonArg} (hkey : 0 ∉ key) (hp : 0 ∉ p)
    (hws : jsonWs p = p) (h : jsonArgValue key p = some (a, r)) : a.Canonical := by
  unfold jsonArgValue at h
  split_ifs at h with hq
  · obtain ⟨⟨s, q⟩, hs, he⟩ := Option.map_eq_some_iff.mp h
    rw [← (Prod.mk.inj he).1]
    exact ⟨hkey, jsonString_noNul hs, by simp, by simp, by simp⟩
  · obtain ⟨⟨raw, q⟩, hraw, he⟩ := Option.map_eq_some_iff.mp h
    rw [← (Prod.mk.inj he).1]
    obtain ⟨q', hskip, hq'⟩ := Option.map_eq_some_iff.mp hraw
    obtain ⟨⟨v, q''⟩, hv, rfl⟩ := Option.map_eq_some_iff.mp hskip
    obtain ⟨x, hx, hsp⟩ := (reads_jsonValue _).spells _ _ _ hv
    simp only [hws] at hx hq'
    rw [hx, upTo_append] at hq'
    obtain rfl : x = raw := (Prod.mk.inj hq').1
    have hmin := jsonMinifyRawValue_spells hsp
    have h0 : 0 ∉ compact x := fun h0 => hp (hx ▸ List.mem_append_left _
      ((minifyCopy_sublist false false x).mem h0))
    obtain ⟨c, t, rfl, hc⟩ := hsp.head
    obtain ⟨t', ht'⟩ := compact_cons (t := t) hc
    have hne : c ≠ 34 := by
      rintro rfl
      rw [hx] at hq
      exact hq rfl
    refine ⟨hkey, by rw [hmin]; exact h0, fun _ => ⟨v, by rw [hmin]; exact hsp.minified⟩,
      fun _ => by rw [hmin, compact_compact], fun _ => ?_⟩
    rw [hmin, ht']
    simpa using hne

theorem preserves_jsonArg : Preserves (0 ∉ ·) jsonArg JsonArg.Canonical := by
  intro p a r hp h
  obtain ⟨x, -, rfl⟩ := consumes_jsonArg p a r h
  refine ⟨?_, fun h0 => hp (List.mem_append_right x h0)⟩
  unfold jsonArg at h
  split at h
  · simp at h
  · next key q hkey =>
    split at h
    · simp at h
    · next r' hr' =>
      obtain ⟨⟨arg, r''⟩, harg, he⟩ := Option.map_eq_some_iff.mp h
      obtain rfl : arg = a := (Prod.mk.inj he).1
      obtain ⟨y, hy, -⟩ := jsonString_eq_some hkey
      have hq : 0 ∉ q := fun h0 => noNul_of_suffix (suffix_jsonWs _) hp
        (hy ▸ List.mem_append_right y h0)
      have hr0 : 0 ∉ jsonWs r' := noNul_of_suffix
        ((suffix_jsonWs r').trans (List.IsSuffix.trans ⟨[58], (strip_eq_some.1 hr').symm⟩
          (suffix_jsonWs q))) hq
      exact canonical_of_jsonArgValue (jsonString_noNul hkey) hr0 (jsonWs_jsonWs r') harg

/-- **The members of an accepted object are canonical.** -/
theorem canonical_of_jsonArgsParse {json : Bytes} {args : List JsonArg} (h0 : 0 ∉ json)
    (h : jsonArgsParse json = some args) : ∀ a ∈ args, a.Canonical := by
  unfold jsonArgsParse at h
  split at h
  · simp at h
  · next r hr =>
    obtain ⟨⟨as, r'⟩, hread, rfl⟩ := Option.map_eq_some_iff.mp h
    have hr0 : 0 ∉ jsonWs r := noNul_of_suffix
      ((suffix_jsonWs r).trans (List.IsSuffix.trans ⟨[123], (strip_eq_some.1 hr).symm⟩
        (suffix_jsonWs json))) h0
    refine (preserves_readAll (P := (0 ∉ ·)) (fun q r hq hs => ?_) preserves_jsonArg _ _ _ hr0 hread).1
    exact noNul_of_suffix ⟨[125], (strip_eq_some.1 hs).symm⟩ hq

/-- The parameter whose member is `a`. -/
def JsonArg.param (a : JsonArg) : Param :=
  ⟨a.key, a.value, if a.isString then lit "true" else lit "false"⟩

theorem JsonArg.Canonical.member_param {a : JsonArg} (h : a.Canonical) : a.param.member = a := by
  obtain ⟨key, value, isString⟩ := a
  cases isString with
  | true => rfl
  | false =>
    obtain ⟨v, hsp⟩ := h.json rfl
    obtain ⟨c, t, ht, hc⟩ := hsp.head
    have hfalse : ¬ lit "false" = lit "true" := by decide
    have htext : ¬ (⟨key, value, lit "false"⟩ : Param).IsText := hfalse
    have hmin : jsonMinifyRawValue value = value :=
      (jsonMinifyRawValue_spells hsp).trans (h.minified rfl)
    have hjson : (⟨key, value, lit "false"⟩ : Param).json = value := by
      have : (⟨key, value, lit "false"⟩ : Param).json =
          if jsonMinifyRawValue value = [] then lit "null" else jsonMinifyRawValue value :=
        if_neg htext
      rw [this, hmin, if_neg (by simpa using congrArg (· ≠ []) ht)]
    have hnone : jsonString value = none := by
      have hq := h.unquoted rfl
      simp only at ht hq
      rw [ht] at hq ⊢
      exact jsonString_eq_none hc (by simpa using hq)
    change Param.member ⟨key, value, lit "false"⟩ = _
    rw [Param.member, if_neg htext, hjson, hnone]

/-- **An argument object is written from its members and read back.** -/
theorem jsonArgsParse_canonical {args : List JsonArg} (h : ∀ a ∈ args, a.Canonical) :
    jsonArgsParse (argsObject (args.map JsonArg.param)) = some args := by
  have hjson : ∀ p ∈ args.map JsonArg.param, p.NoNul ∧ p.BodyIsJson := by
    intro p hp
    obtain ⟨a, ha, rfl⟩ := List.mem_map.mp hp
    refine ⟨⟨(h a ha).key, (h a ha).value⟩, ?_⟩
    cases hs : a.isString with
    | true => exact .inl (by simp [JsonArg.param, Param.IsText, hs])
    | false =>
      obtain ⟨v, hsp⟩ := (h a ha).json hs
      have := hsp.reads [] follow_nil
      rw [List.append_nil] at this
      exact .inr (.inr (by simp [JsonArg.param, jsonSkipValue, this]))
  rw [jsonArgsParse_of_json hjson, List.map_map]
  have : args.map (Param.member ∘ JsonArg.param) = args.map id :=
    List.map_congr_left fun a ha => (h a ha).member_param
  rw [this, List.map_id]

/-! ## The result -/

/-- The invocations of the tool block that the parser takes from a text. -/
def deepseekInvokes (requireThinkingClosed : Bool) (text : Bytes) : List (Bytes × List DsmlParam) :=
  match toolSearch findAnyToolStart findAnyToolEnd requireThinkingClosed text with
  | none => []
  | some (search, _) =>
    match deepseekStart search with
    | none => []
    | some (start, style) =>
      match deepseekBlock start style with
      | none => []
      | some (calls, _) => calls

/-- A parameter with a body that is JSON, or nested members that form JSON. -/
def DsmlParam.BodyIsJson : DsmlParam → Prop
  | .body p => p.BodyIsJson
  | .nested _ members => (jsonSkipValue (argsObject members)).isSome = true

theorem DsmlParam.bodyIsJson_iff (p : DsmlParam) : p.param.BodyIsJson ↔ p.BodyIsJson := by
  cases p with
  | body p => rfl
  | nested name members =>
    have hfalse : ¬ lit "false" = lit "true" := by decide
    have hne : argsObject members ≠ [] := List.cons_ne_nil 123 _
    simp [DsmlParam.param, DsmlParam.BodyIsJson, Param.BodyIsJson, Param.IsText, hfalse, hne]

theorem parseDeepseek_calls {requireThinkingClosed : Bool} {text : Bytes} {msg : Message}
    (h : parseDeepseek requireThinkingClosed text = some msg) :
    msg.calls = (deepseekInvokes requireThinkingClosed text).map dsmlCall := by
  unfold parseDeepseek at h
  unfold deepseekInvokes
  cases hs : toolSearch findAnyToolStart findAnyToolEnd requireThinkingClosed text with
  | none =>
    rw [hs] at h
    obtain rfl := Option.some.inj h
    rfl
  | some found =>
    obtain ⟨search, recovered⟩ := found
    rw [hs] at h
    dsimp only at h ⊢
    cases hstart : deepseekStart search with
    | none =>
      rw [hstart] at h
      obtain rfl := Option.some.inj h
      rfl
    | some begin =>
      obtain ⟨start, style⟩ := begin
      rw [hstart] at h
      obtain ⟨⟨calls, r⟩, hblock, rfl⟩ := Option.map_eq_some_iff.mp h
      simp [hblock]

theorem suffix_of_findStructuralFrom {needle s t : Bytes} {last : Bool} {n : Nat}
    {found : Option Bytes} {text : Bytes} (hs : s <:+ text) (hfound : ∀ t, found = some t → t <:+ text)
    (h : findStructuralFrom needle last n found s = some t) : t <:+ text := by
  induction n generalizing s found with
  | zero => exact hfound t h
  | succ n ih =>
    cases s with
    | nil => exact hfound t h
    | cons c s =>
      have htail : s <:+ text := (List.suffix_cons c s).trans hs
      have hfound' : ∀ t, (if needle <+: c :: s then some (c :: s) else found) = some t →
          t <:+ text := by
        intro t ht
        split_ifs at ht
        · exact Option.some.inj ht ▸ hs
        · exact hfound t ht
      rw [findStructuralFrom] at h
      split_ifs at h with hstop hn
      · exact Option.some.inj h ▸ hs
      all_goals
        simp only [hn, if_true, if_false] at hfound'
        dsimp only at h
        split at h
        · exact ih htail hfound' h
        · split at h
          · exact hfound' t h
          · next r hr => exact ih ((suffix_of_skipWrapper hr).trans hs) hfound' h

theorem suffix_of_earliestOf {marks : List Bytes} {s t : Bytes} (h : earliestOf marks s = some t) :
    t <:+ s := by
  have hfold : ∀ (cs : List (Option Bytes)) (best : Option Bytes),
      (∀ c ∈ cs, ∀ t, c = some t → t <:+ s) → (∀ t, best = some t → t <:+ s) →
      ∀ t, cs.foldl earlier best = some t → t <:+ s := by
    intro cs
    induction cs with
    | nil => exact fun best _ hb => hb
    | cons c cs ih =>
      intro best hcs hb
      refine ih (earlier best c) (fun d hd => hcs d (List.mem_cons_of_mem c hd)) fun t ht => ?_
      have hc := hcs c List.mem_cons_self
      cases best with
      | none =>
        cases c with
        | none => simp [earlier] at ht
        | some c => exact hc t ht
      | some b =>
        cases c with
        | none => exact hb t ht
        | some c =>
          rw [earlier] at ht
          split_ifs at ht
          · exact hc t ht
          · exact hb t ht
  refine hfold _ none (fun c hc t ht => ?_) (by simp) t h
  obtain ⟨mark, -, rfl⟩ := List.mem_map.mp hc
  exact suffix_of_strstr ht

theorem suffix_of_toolSearch {candidate complete : Bytes → Option Bytes} {require : Bool}
    {text search : Bytes} {recovered : Bool} (hc : ∀ t, candidate text = some t → t <:+ text)
    (h : toolSearch candidate complete require text = some (search, recovered)) :
    search <:+ text := by
  unfold toolSearch at h
  split_ifs at h
  · split at h
    · next t ht =>
      obtain ⟨rfl, -⟩ := Prod.mk.inj (Option.some.inj h)
      exact (List.drop_suffix _ t).trans (suffix_of_findStructuralFrom List.suffix_rfl (by simp) ht)
    · split at h
      · simp at h
      · next c hcand =>
        split_ifs at h
        obtain ⟨rfl, -⟩ := Prod.mk.inj (Option.some.inj h)
        exact hc c hcand
  · obtain ⟨rfl, -⟩ := Prod.mk.inj (Option.some.inj h)
    exact List.suffix_rfl

theorem some_of_orElse {α : Type*} {a b : Option α} {x : α} (h : (a <|> b) = some x) :
    a = some x ∨ b = some x := by
  cases a with
  | none => exact .inr h
  | some y => exact .inl h

theorem suffix_of_deepseekStart {s start : Bytes} {style : DsmlStyle}
    (h : deepseekStart s = some (start, style)) : start <:+ s := by
  have hfind : ∀ (style' : DsmlStyle) x,
      ((findStart s style'.marks.toolCallsStart).map fun t => (t, style')) = some x → x.1 <:+ s := by
    intro style' x hx
    obtain ⟨t, ht, rfl⟩ := Option.map_eq_some_iff.mp hx
    rcases some_of_orElse ht with h | h
    · exact suffix_of_strstr h
    · exact suffix_of_strstr h
  have hor : ∀ x, (((findStart s DsmlStyle.dsml.marks.toolCallsStart).map fun t => (t, DsmlStyle.dsml)) <|>
      ((findStart s DsmlStyle.short.marks.toolCallsStart).map fun t => (t, DsmlStyle.short)) <|>
      ((findStart s DsmlStyle.plain.marks.toolCallsStart).map fun t => (t, DsmlStyle.plain))) = some x →
      x.1 <:+ s := by
    intro x hx
    rcases some_of_orElse hx with h | hx
    · exact hfind _ x h
    · rcases some_of_orElse hx with h | h
      · exact hfind _ x h
      · exact hfind _ x h
  unfold deepseekStart at h
  dsimp only at h
  split at h
  · exact hor _ h
  · next hv => exact hfind .dsml41 _ (hv.trans h)
  · next ha hb =>
    split_ifs at h
    · exact hfind .dsml41 _ (hb.trans h)
    · exact hor _ (ha.trans h)

theorem deepseekInvokes_noNul {text : Bytes} (h : 0 ∉ text) (require : Bool) :
    ∀ c ∈ deepseekInvokes require text, ∀ p ∈ c.2, p.param.NoNul := by
  intro c hc
  unfold deepseekInvokes at hc
  split at hc
  · simp at hc
  · next search recovered hs =>
    split at hc
    · simp at hc
    · next start style hstart =>
      split at hc
      · simp at hc
      · next calls r hblock =>
        have hsuffix : start <:+ text := (suffix_of_deepseekStart hstart).trans
          (suffix_of_toolSearch (fun t ht => suffix_of_earliestOf ht) hs)
        unfold deepseekBlock at hblock
        split at hblock
        · simp at hblock
        · next a p hcut =>
          have hp := (cut_noNul hcut (noNul_of_suffix hsuffix h)).2
          exact (preserves_invokes style.marks p calls r hp hblock).1 c hc

/-- **The arguments of every parsed call are an object with the members of its parameters, in
order, exactly when every body that is not a string is JSON.** -/
theorem parsed_arguments {text : Bytes} (h0 : 0 ∉ text) {requireThinkingClosed : Bool} {msg : Message}
    (h : parseDeepseek requireThinkingClosed text = some msg) :
    (msg.calls.map fun call => jsonArgsParse call.arguments) =
        (deepseekInvokes requireThinkingClosed text).map
          (fun c => some (c.2.map fun p => p.param.member)) ↔
      ∀ c ∈ deepseekInvokes requireThinkingClosed text, ∀ p ∈ c.2, p.BodyIsJson := by
  rw [parseDeepseek_calls h, List.map_map, List.map_inj_left]
  refine forall₂_congr fun c hc => ?_
  have hnul : ∀ p ∈ c.2.map DsmlParam.param, p.NoNul := by
    intro p hp
    obtain ⟨q, hq, rfl⟩ := List.mem_map.mp hp
    exact deepseekInvokes_noNul h0 requireThinkingClosed c hc q hq
  have hparse := jsonArgsParse_argsObject hnul
  rw [List.map_map, List.forall_mem_map] at hparse
  simp only [DsmlParam.bodyIsJson_iff] at hparse
  rw [← hparse]
  rfl

/-- A block with a value that is JSON, and one with a value that is not. -/
def listBlock : Bytes :=
  lit "<tool_calls><invoke name=\"f\"><parameter name=\"a\" string=\"false\">[1, 2]</parameter></invoke></tool_calls>"

def wordBlock : Bytes :=
  lit "<tool_calls><invoke name=\"f\"><parameter name=\"a\" string=\"false\">abc</parameter></invoke></tool_calls>"

theorem parsed_arguments_value :
    ([⟨lit "f", lit "\x7b\"a\": [1,2]\x7d"⟩].map fun call => jsonArgsParse (ToolCall.arguments call)) =
        (deepseekInvokes false listBlock).map
          (fun c => some (c.2.map fun p => p.param.member)) ↔
      ∀ c ∈ deepseekInvokes false listBlock, ∀ p ∈ c.2, p.BodyIsJson := by
  have h : parseDeepseek false listBlock =
      some ⟨[], none, [⟨lit "f", lit "\x7b\"a\": [1,2]\x7d"⟩],
        some listBlock⟩ := by
    decide
  exact parsed_arguments (by decide) h

/-- A body that is not JSON makes arguments that no reader of the server takes. -/
theorem parsed_arguments_lost :
    (parseDeepseek false wordBlock).map
      (fun msg => msg.calls.map fun call =>
        (jsonArgsParse call.arguments, jsonObjectOrEmpty call.arguments)) =
      some [(none, lit "\x7b\x7d")] := by
  decide

end Ds4.Server
