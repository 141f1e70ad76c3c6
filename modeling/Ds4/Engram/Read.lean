import Ds4.Engram.Hash
import Ds4.Lib.Bytes
import Mathlib.Logic.Relation

/-!
# Reading rows of a table

`read` is `ds4_engram_read`: row after row from the file, each byte through a table of code and scale.
`ds4_engram_read_batch_readers` reads what a batch of tokens asks for in parallel. The requests are sorted by row
and cut into parts; a part copies a row that the request before it asked for too. The parts run in threads,
whatever number of them starts, and a step is one request of one part.
-/

namespace Ds4.Engram

open Ds4.Lib

/-- `DS4_ENGRAM_DIM`. -/
abbrev dim : Nat := 256

/-- `DS4_ENGRAM_ROW_BYTES`. -/
abbrev rowBytes : UInt64 := 264

/-- The bits of the floats of a row. -/
abbrev Row := Fin dim → UInt32

/-- `EIO`, `EINVAL`, `EDOM`. -/
def eio : Int := 5
def einval : Int := 22
def edom : Int := 33

/-- `ds4_engram_table`, with what `read_row` gives at an offset of its file, and `engram_bf16`. -/
structure Table where
  fd : Int
  offset : UInt64
  rows : UInt32
  readRow : UInt64 → Except Int Bytes
  engramBf16 : UInt8 → UInt8 → UInt16

namespace Table

variable (t : Table)

/-- The value of a byte of a row. -/
def value (raw : Bytes) (j : Fin dim) : UInt16 := t.engramBf16 (raw.getD (dim + j / 32) 0) (raw.getD j 0)

/-- The loop over the bytes of a row. -/
def decodeRow (raw : Bytes) : List (Fin dim) → Row → Row × Option Int
  | [], dst => (dst, none)
  | j :: js, dst =>
    if t.value raw j = 0xffff then (dst, some edom)
    else decodeRow raw js (Function.update dst j ((t.value raw j).toUInt32 <<< 16))

/-- The loop over the rows. -/
def readRows : List UInt32 → Nat → (Nat → Row) → (Nat → Row) × Option Int
  | [], _, out => (out, none)
  | row :: rows, i, out =>
    match t.readRow (t.offset + row.toUInt64 * rowBytes) with
    | .error e => (out, some e)
    | .ok raw =>
      match t.decodeRow raw (List.finRange dim) (out i) with
      | (dst, some e) => (Function.update out i dst, some e)
      | (dst, none) => readRows rows (i + 1) (Function.update out i dst)

/-- `ds4_engram_read`; a failure is its `errno`. -/
def read (rows : List UInt32) (out : Nat → Row) : (Nat → Row) × Option Int :=
  if t.fd < 0 ∨ rows.length > sizeMax / (dim * 4) then (out, some einval)
  else if rows.any (fun row => decide (row ≥ t.rows)) then (out, some einval)
  else t.readRows rows 0 out

/-- One row, to where it is to go. -/
def readOne (row : UInt32) (dst : Row) : Row × Option Int :=
  let (out, err) := t.read [row] fun _ => dst
  (out 0, err)

end Table

/-! ## A batch -/

/-- `engram_request`. -/
structure Request where
  row : UInt32
  output : UInt32
deriving Inhabited

/-- `engram_batch`; `base` is where its output starts. -/
structure Batch where
  table : Table
  request : List Request
  base : Nat
  readers : Nat

/-- What `read_batch_part` keeps: the position, where `previous` points to, and the error of the part. -/
structure Part where
  i : Nat
  previous : Option Nat
  error : Int

/-- The output and the parts; and for each thread the parts that it still has to run. -/
structure Readers where
  out : Nat → Row
  part : Nat → Part
  work : List (List Nat)

namespace Batch

variable (b : Batch)

/-- `begin` and `end` of a part. -/
def first (part : Nat) : Nat := b.request.length * part / b.readers
def last (part : Nat) : Nat := b.request.length * (part + 1) / b.readers

/-- A request, and where its row goes. -/
def requestAt (i : Nat) : Request := b.request.getD i default
def dst (i : Nat) : Nat := b.base + (b.requestAt i).output.toNat

/-- A part that has returned. -/
def Done (part : Nat) (p : Part) : Prop := p.error ≠ 0 ∨ b.last part ≤ p.i

instance (part : Nat) (p : Part) : Decidable (b.Done part p) := by unfold Done; infer_instance

/-- The body of the loop of `read_batch_part`. -/
def partStep (part : Nat) (s : Readers) : Readers :=
  let p := s.part part
  let dst := b.dst p.i
  if p.i > b.first part ∧ (b.requestAt p.i).row = (b.requestAt (p.i - 1)).row then
    { s with
      out := Function.update s.out dst (s.out (p.previous.getD dst))
      part := Function.update s.part part { p with i := p.i + 1 } }
  else
    match b.table.readOne (b.requestAt p.i).row (s.out dst) with
    | (row, some e) =>
      { s with
        out := Function.update s.out dst row
        part := Function.update s.part part { p with error := if e ≠ 0 then e else eio } }
    | (row, none) =>
      { s with
        out := Function.update s.out dst row
        part := Function.update s.part part { p with i := p.i + 1, previous := some dst } }

/-- A thread goes on with its part, or leaves it for its next one. -/
def threadStep (k : Nat) (s : Readers) : Option Readers :=
  match s.work.getD k [] with
  | [] => none
  | part :: rest =>
    if b.Done part (s.part part) then some { s with work := s.work.set k rest }
    else some (b.partStep part s)

/-- Any thread may be the next. -/
def Step (s s' : Readers) : Prop := ∃ k, b.threadStep k s = some s'

/-- The state when `started` threads have been created. -/
def start (work : List (List Nat)) (out : Nat → Row) : Readers where
  out := out
  part := fun part => ⟨b.first part, none, 0⟩
  work := work

end Batch

/-- All threads have been joined. -/
def Readers.Finished (s : Readers) : Prop := ∀ parts ∈ s.work, parts = []

/-- The parts of the calling thread and of the threads that were created: a part without a thread is the caller's. -/
def threadParts (readers started : Nat) : List (List Nat) :=
  (0 :: List.range' (started + 1) (readers - (started + 1))) :: (List.range' 1 started).map ([·])

/-! ## All batches -/

/-- The arguments of `ds4_engram_read_batch_readers`, and `ENGRAM_PARALLEL_MIN_ROWS`. -/
structure BatchRead where
  table : Table
  rows : Nat → UInt32
  tokens : Nat
  stride : Nat
  readers : Nat
  parallelMinRows : Nat

namespace BatchRead

variable (r : BatchRead)

/-- `BATCH_TOKENS`, and the capacity of a batch. -/
def batchTokens : Nat := 2048
def cap : Nat := if r.tokens < batchTokens then r.tokens else batchTokens

/-- The requests of a batch, before they are sorted. -/
def count (start : Nat) : Nat := (if r.tokens - start < r.cap then r.tokens - start else r.cap) * cols
def requests (start : Nat) : List Request :=
  (List.range (r.count start)).map fun i =>
    ⟨r.rows ((start + i / cols) * r.stride + i % cols), UInt32.ofNat i⟩

/-- The first error of the parts. -/
def firstError (readers : Nat) (part : Nat → Part) : Option Int :=
  ((List.range readers).map fun i => (part i).error).find? (· ≠ 0)

/-- One batch: the requests in any order that sorts them, any number of threads, and any interleaving. -/
def RunsBatch (start : Nat) (out out' : Nat → Row) (err : Option Int) : Prop :=
  ∃ request readers work s, request.Perm (r.requests start) ∧ request.Pairwise (fun x y => x.row ≤ y.row) ∧
    (r.count start ≥ r.parallelMinRows ∧ readers = r.readers ∧ (∃ started < readers, work = threadParts readers started) ∨
      r.count start < r.parallelMinRows ∧ readers = 1 ∧ work = [[0]]) ∧
    let b : Batch := ⟨r.table, request, start * cols, readers⟩
    Relation.ReflTransGen b.Step (b.start work out) s ∧ s.Finished ∧
      out' = s.out ∧ err = firstError readers s.part

/-- The loop over the batches. -/
inductive RunsFrom : Nat → (Nat → Row) → (Nat → Row) × Option Int → Prop
  | done {start : Nat} {out : Nat → Row} (h : ¬start < r.tokens) : RunsFrom start out (out, none)
  | next {start : Nat} {out out' : Nat → Row} {res : (Nat → Row) × Option Int} (h : start < r.tokens)
      (hbatch : r.RunsBatch start out out' none) (hrest : RunsFrom (start + r.cap) out' res) : RunsFrom start out res
  | fails {start : Nat} {out out' : Nat → Row} {e : Int} (h : start < r.tokens)
      (hbatch : r.RunsBatch start out out' (some e)) : RunsFrom start out (out', some e)

/-- The arguments that are refused. -/
def Refused : Prop :=
  r.table.fd < 0 ∨ r.readers < 1 ∨ r.readers > 32 ∨ r.tokens ≠ 0 ∧ r.stride < cols ∨
    r.tokens > sizeMax / (cols * dim * 4) ∨ r.tokens ≠ 0 ∧ r.tokens - 1 > (sizeMax / 4 - cols) / r.stride

/-- A row that the table does not have. -/
def OutOfRange : Prop := ∃ i < r.tokens, ∃ j < cols, r.rows (i * r.stride + j) ≥ r.table.rows

/-- `ds4_engram_read_batch_readers`: what it can leave in the output, and `errno` where it fails. -/
def Runs (out : Nat → Row) (res : (Nat → Row) × Option Int) : Prop :=
  (r.Refused ∨ r.OutOfRange) ∧ res = (out, some einval) ∨
    ¬r.Refused ∧ ¬r.OutOfRange ∧ r.RunsFrom 0 out res

end BatchRead

end Ds4.Engram
