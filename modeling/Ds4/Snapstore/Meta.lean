import Ds4.Lib.Scan

/-!
# Snapshot metadata

A snapshot is described by a text of `key value` lines whose last line is `end`. `metaParse`,
`metaGet` and `weightKey` are `ds4_ss_meta_parse`, `ds4_ss_meta_get` and `ss_weight_key`; a text is
the content of a C string, so it holds no NUL.

The line of a weight file is `PATH SIZE MTIME SHA` (`WeightLine`), and `weightKey` is what the
comparison keeps of it. Its format reads words, and PATH need not be one: `weightKey_render` says
which words the comparison really sees.
-/

namespace Ds4.Snapstore

open Ds4.Lib

/-! ## Lines -/

/-- `ds4_ss_line`. -/
structure MetaLine where
  key : Bytes
  val : Bytes
deriving DecidableEq

/-- `ds4_ss_meta`. -/
structure Meta where
  line : List MetaLine
  complete : Bool
deriving DecidableEq

/-- `ss_two_word_key`. -/
def twoWordKey (k : Bytes) : Bool := k == lit "numerics" || k == lit "env"

/-- One line of the parser: the key ends at the first space, or at the `=` behind it. -/
def metaLine (l : Bytes) : MetaLine :=
  let k := l.takeWhile (· != 32)
  match l.dropWhile (· != 32) with
  | [] => ⟨l, []⟩
  | _ :: v =>
    if twoWordKey k then
      match v.dropWhile (· != 61) with
      | [] => ⟨k, v⟩
      | _ :: v' => ⟨k ++ 32 :: v.takeWhile (· != 61), v'⟩
    else ⟨k, v⟩

/-- `ds4_ss_meta_parse`; empty lines are skipped. -/
def metaParse (text : Bytes) : Meta :=
  let ls := (text.splitOn 10).filter (· ≠ [])
  ⟨ls.map metaLine, ls.getLast? == some (lit "end")⟩

/-- `ds4_ss_meta_get`: the value of the first line with this key. -/
def metaGet (m : Meta) (key : Bytes) : Option Bytes :=
  (m.line.find? (·.key == key)).map (·.val)

/-- A text of the given lines. -/
def sheet (ls : List Bytes) : Bytes := ls.flatMap (· ++ [10])

theorem splitOn_sheet {ls : List Bytes} (h : ∀ l ∈ ls, 10 ∉ l) :
    (sheet ls).splitOn 10 = ls ++ [[]] := by
  induction ls with
  | nil => rfl
  | cons l ls ih =>
    rw [sheet, List.flatMap_cons, List.append_assoc, List.singleton_append,
      List.splitOn_append_cons_self_of_not_mem (h l (by simp))]
    rw [← sheet, ih fun l' hl => h l' (by simp [hl]), List.cons_append]

theorem metaParse_sheet {ls : List Bytes} (h : ∀ l ∈ ls, 10 ∉ l ∧ l ≠ []) :
    metaParse (sheet ls) = ⟨ls.map metaLine, ls.getLast? == some (lit "end")⟩ := by
  have hf : (ls ++ [[]]).filter (· ≠ []) = ls := by
    rw [List.filter_append]
    simpa using fun l hl => (h l hl).2
  simp only [metaParse, splitOn_sheet fun l hl => (h l hl).1, hf]

theorem metaLine_word {k v : Bytes} (hk : 32 ∉ k) (h2 : twoWordKey k = false) :
    metaLine (k ++ 32 :: v) = ⟨k, v⟩ := by
  have hl : ∀ a ∈ k, (a != 32) = true := fun a ha => by
    simpa using fun h : a = 32 => hk (h ▸ ha)
  have hr : ∀ a, ((32 : UInt8) :: v).head? = some a → (a != 32) = false := fun a ha => by
    simp_all
  unfold metaLine
  simp only [takeWhile_append_stop hl hr, dropWhile_append_stop hl hr, h2]
  simp

/-! ## Weight lines -/

/-- A file name that a line can hold. -/
structure FilePath where
  bytes : Bytes
  no_newline : 10 ∉ bytes
  no_nul : 0 ∉ bytes

/-- The line of a weight file. The writer prints two decimal `long long` and 64 hexadecimal digits
or `unverifiable`; all that matters is that these are words which fit the reader's buffers. -/
structure WeightLine where
  path : FilePath
  size : Bytes
  mtime : Bytes
  sha : Bytes
  size_word : Word size
  mtime_word : Word mtime
  sha_word : Word sha
  size_le : size.length ≤ 31
  mtime_le : mtime.length ≤ 31
  sha_le : sha.length ≤ 79

/-- The fields behind the path. -/
def WeightLine.fields (w : WeightLine) : Bytes := w.size ++ 32 :: (w.mtime ++ 32 :: w.sha)

/-- `PATH SIZE MTIME SHA`. -/
def WeightLine.render (w : WeightLine) : Bytes := w.path.bytes ++ 32 :: w.fields

/-- The buffers `path`, `size`, `mtime` and `sha` of `ss_weight_key`, without their NUL. -/
def weightWidths : List Nat := [4095, 31, 31, 79]

/-- `ss_weight_key` into a buffer of 160 bytes; `none` is a missing line. -/
def weightKey : Option Bytes → Bytes
  | none => lit "-"
  | some v =>
    if v = lit "-" then lit "-"
    else
      match scanWords weightWidths v with
      | [_, size, _, sha] => (size ++ 32 :: sha).take 159
      | _ => (63 :: v).take 159

theorem weightWidths_pos : ∀ n ∈ weightWidths, 0 < n := by decide

theorem space_mem_render (w : WeightLine) : (32 : UInt8) ∈ w.render := by
  simp [WeightLine.render]

theorem space_not_mem {w : Bytes} (hw : Word w) : (32 : UInt8) ∉ w := fun h =>
  absurd (hw.no_space 32 h) (by decide)

theorem render_fields_inj {w w' : WeightLine} (h : w.render = w'.render) :
    w.path.bytes = w'.path.bytes ∧ w.size = w'.size ∧ w.sha = w'.sha := by
  have h3 : (w.path.bytes ++ 32 :: w.size ++ 32 :: w.mtime) ++ 32 :: w.sha =
      (w'.path.bytes ++ 32 :: w'.size ++ 32 :: w'.mtime) ++ 32 :: w'.sha := by
    simpa [WeightLine.render, WeightLine.fields] using h
  obtain ⟨h2, hsha⟩ :=
    append_cons_inj_right (space_not_mem w.sha_word) (space_not_mem w'.sha_word) h3
  obtain ⟨h1, -⟩ :=
    append_cons_inj_right (space_not_mem w.mtime_word) (space_not_mem w'.mtime_word) h2
  obtain ⟨hpath, hsize⟩ :=
    append_cons_inj_right (space_not_mem w.size_word) (space_not_mem w'.size_word) h1
  exact ⟨hpath, hsize, hsha⟩

theorem render_ne_dash (w : WeightLine) : w.render ≠ lit "-" := by
  intro h
  have := space_mem_render w
  rw [h] at this
  exact absurd this (by decide)

theorem scanWords_render (w : WeightLine) :
    scanWords weightWidths w.render = scanWords weightWidths w.path.bytes ++
      scanWords (weightWidths.drop (scanWords weightWidths w.path.bytes).length) w.fields :=
  scanWords_append weightWidths_pos _ _

/-! ## What the comparison keeps -/

/-- The mark of a file without a recorded digest. -/
def unverifiable : Bytes := lit "unverifiable"

/-- A path that the format reads as one word. -/
def FilePath.OneWord (p : FilePath) : Prop := (scanWords weightWidths p.bytes).length = 1

/-- The second and fourth word of the line lie in the path, or only the second, and one of these
holds the mark. -/
def FilePath.Poisoned (p : FilePath) : Prop :=
  match scanWords weightWidths p.bytes with
  | [_, b] => unverifiable <:+: b
  | [_, b, _] => unverifiable <:+: b
  | [_, b, _, d] => unverifiable <:+: b ∨ unverifiable <:+: d
  | _ => False

theorem weightKey_of_words {v a b c d : Bytes} (hv : v ≠ lit "-")
    (h : scanWords weightWidths v = [a, b, c, d]) : weightKey (some v) = b ++ 32 :: d := by
  have hlen : b.length ≤ 31 ∧ d.length ≤ 79 := by
    have := scanWords_forall₂ weightWidths v
    rw [h] at this
    simp only [weightWidths, List.length_cons, List.length_nil, List.take_succ_cons,
      List.forall₂_cons] at this
    exact ⟨this.2.1.2, this.2.2.2.1.2⟩
  simp only [weightKey, if_neg hv, h]
  exact List.take_of_length_le (by simp; omega)

/-- The format reads at most four words of a path. -/
theorem pathWords_cases (p : FilePath) :
    scanWords weightWidths p.bytes = [] ∨ (∃ a, scanWords weightWidths p.bytes = [a]) ∨
      (∃ a b, scanWords weightWidths p.bytes = [a, b]) ∨
      (∃ a b c, scanWords weightWidths p.bytes = [a, b, c]) ∨
      ∃ a b c d, scanWords weightWidths p.bytes = [a, b, c, d] := by
  have hle := scanWords_length_le weightWidths p.bytes
  rcases hw : scanWords weightWidths p.bytes with _ | ⟨a, _ | ⟨b, _ | ⟨c, _ | ⟨d, _ | ⟨e, l⟩⟩⟩⟩⟩
  · exact .inl rfl
  · exact .inr (.inl ⟨a, rfl⟩)
  · exact .inr (.inr (.inl ⟨a, b, rfl⟩))
  · exact .inr (.inr (.inr (.inl ⟨a, b, c, rfl⟩)))
  · exact .inr (.inr (.inr (.inr ⟨a, b, c, d, rfl⟩)))
  · rw [hw] at hle
    exact absurd hle (by simp [weightWidths])

/-- The words of the line that the comparison keeps: SIZE and SHA only where PATH is one word. -/
def WeightLine.keyWords (w : WeightLine) : Bytes × Bytes :=
  match scanWords weightWidths w.path.bytes with
  | [_, b] => (b, w.mtime)
  | [_, b, _] => (b, w.size)
  | [_, b, _, d] => (b, d)
  | _ => (w.size, w.sha)

theorem weightKey_render {w : WeightLine} (h : scanWords weightWidths w.path.bytes ≠ []) :
    weightKey (some w.render) = w.keyWords.1 ++ 32 :: w.keyWords.2 := by
  have hw := scanWords_render w
  have hs := fun n h => scanWord_word_space (n := n) w.size_word h (w.mtime ++ 32 :: w.sha)
  have hm := fun n h => scanWord_word_space (n := n) w.mtime_word h w.sha
  have hsize := w.size_le
  have hmtime := w.mtime_le
  have hsha : scanWord 79 w.sha = some (w.sha, []) := by
    have h := scanWord_word w.sha_word w.sha_le (fun c (hc : ([] : Bytes).head? = some c) => nomatch hc)
    rwa [List.append_nil] at h
  unfold WeightLine.keyWords
  rcases pathWords_cases w.path with hp | ⟨a, hp⟩ | ⟨a, b, hp⟩ | ⟨a, b, c, hp⟩ | ⟨a, b, c, d, hp⟩
  · exact absurd hp h
  · rw [hp, show weightWidths.drop [a].length = [31, 31, 79] from rfl] at hw
    simp only [WeightLine.fields, scanWords, hs 31 hsize, scanWord_space, hm 31 hmtime, hsha] at hw
    simpa only [hp] using weightKey_of_words (render_ne_dash w) hw
  · rw [hp, show weightWidths.drop [a, b].length = [31, 79] from rfl] at hw
    simp only [WeightLine.fields, scanWords, hs 31 hsize, scanWord_space, hm 79 (by omega)] at hw
    simpa only [hp] using weightKey_of_words (render_ne_dash w) hw
  · rw [hp, show weightWidths.drop [a, b, c].length = [79] from rfl] at hw
    simp only [WeightLine.fields, scanWords, hs 79 (by omega)] at hw
    simpa only [hp] using weightKey_of_words (render_ne_dash w) hw
  · rw [hp, show weightWidths.drop [a, b, c, d].length = [] from rfl] at hw
    simpa only [hp] using weightKey_of_words (render_ne_dash w) hw

theorem weightKey_of_oneWord {w : WeightLine} (h : w.path.OneWord) :
    weightKey (some w.render) = w.size ++ 32 :: w.sha := by
  obtain ⟨a, ha⟩ := List.length_eq_one_iff.mp h
  rw [weightKey_render (by simp [ha]), WeightLine.keyWords, ha]

theorem weightKey_sha_irrelevant {w w' : WeightLine}
    (h : 2 ≤ (scanWords weightWidths w.path.bytes).length) (hp : w.path = w'.path)
    (hsize : w.size = w'.size) (hmtime : w.mtime = w'.mtime) :
    weightKey (some w.render) = weightKey (some w'.render) := by
  have hne : scanWords weightWidths w.path.bytes ≠ [] := fun h' => by simp [h'] at h
  rw [weightKey_render hne, weightKey_render (hp ▸ hne)]
  unfold WeightLine.keyWords
  rw [← hp, ← hsize, ← hmtime]
  rcases pathWords_cases w.path with hw | ⟨a, hw⟩ | ⟨a, b, hw⟩ | ⟨a, b, c, hw⟩ | ⟨a, b, c, d, hw⟩
  · exact absurd hw hne
  · simp [hw] at h
  all_goals simp only [hw]

/-! ## The mark -/

theorem infix_two_words (a b : Bytes) :
    unverifiable <:+: a ++ 32 :: b ↔ unverifiable <:+: a ∨ unverifiable <:+: b :=
  infix_append_cons_iff (by decide)

theorem marked_of_poisoned {w : WeightLine} (h : w.path.Poisoned) :
    unverifiable <:+: weightKey (some w.render) := by
  unfold FilePath.Poisoned at h
  have hne : scanWords weightWidths w.path.bytes ≠ [] := fun h' => by simp [h'] at h
  rw [weightKey_render hne, infix_two_words, WeightLine.keyWords]
  split at h
  next hw => exact .inl (by simpa [hw] using h)
  next hw => exact .inl (by simpa [hw] using h)
  next hw => simpa [hw] using h
  next => exact h.elim

theorem not_marked {w : WeightLine} (h : 2 ≤ (scanWords weightWidths w.path.bytes).length)
    (hp : ¬ w.path.Poisoned) (hsize : ¬ unverifiable <:+: w.size)
    (hmtime : ¬ unverifiable <:+: w.mtime) : ¬ unverifiable <:+: weightKey (some w.render) := by
  have hne : scanWords weightWidths w.path.bytes ≠ [] := fun h' => by simp [h'] at h
  unfold FilePath.Poisoned at hp
  rw [weightKey_render hne, infix_two_words, WeightLine.keyWords]
  rcases pathWords_cases w.path with hw | ⟨a, hw⟩ | ⟨a, b, hw⟩ | ⟨a, b, c, hw⟩ | ⟨a, b, c, d, hw⟩
  · exact absurd hw hne
  · simp [hw] at h
  · simp only [hw] at hp ⊢
    exact not_or.mpr ⟨hp, hmtime⟩
  · simp only [hw] at hp ⊢
    exact not_or.mpr ⟨hp, hsize⟩
  · simpa only [hw] using hp

end Ds4.Snapstore
