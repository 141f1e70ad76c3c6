import Ds4.Gguf.Cursor

/-!
# Opening a model file

`model_open` up to `model_unmap_engram`: the header, `parse_metadata`, `parse_tensors`, and for a V4.1
model the tables that are cut off the end of the mapping. A refusal is the text the program dies with.
-/

namespace Ds4.Gguf

open Ds4.Lib

/-! ## Tensors -/

/-- `gguf_type_info`. -/
structure TypeInfo where
  blockElems : UInt64
  blockBytes : UInt64

/-- `tensor_type`: the used entries of `gguf_types`. -/
def tensorType (type : UInt32) : Option TypeInfo :=
  match type.toNat with
  | 0 => some ⟨1, 4⟩
  | 1 => some ⟨1, 2⟩
  | 2 => some ⟨32, 18⟩
  | 3 => some ⟨32, 20⟩
  | 6 => some ⟨32, 22⟩
  | 7 => some ⟨32, 24⟩
  | 8 => some ⟨32, 34⟩
  | 9 => some ⟨32, 40⟩
  | 10 => some ⟨256, 84⟩
  | 11 => some ⟨256, 110⟩
  | 12 => some ⟨256, 144⟩
  | 13 => some ⟨256, 176⟩
  | 14 => some ⟨256, 210⟩
  | 15 => some ⟨256, 292⟩
  | 16 => some ⟨256, 66⟩
  | 17 => some ⟨256, 74⟩
  | 18 => some ⟨256, 98⟩
  | 19 => some ⟨256, 110⟩
  | 20 => some ⟨256, 50⟩
  | 21 => some ⟨256, 110⟩
  | 22 => some ⟨256, 82⟩
  | 23 => some ⟨256, 136⟩
  | 24 => some ⟨1, 1⟩
  | 25 => some ⟨1, 2⟩
  | 26 => some ⟨1, 4⟩
  | 27 => some ⟨1, 8⟩
  | 28 => some ⟨1, 8⟩
  | 29 => some ⟨256, 56⟩
  | 30 => some ⟨1, 2⟩
  | 39 => some ⟨32, 17⟩
  | _ => none

/-- `UINT64_MAX`. -/
def uint64Max : UInt64 := -1

/-- `tensor_nbytes`. -/
def tensorNbytes (type : UInt32) (elements : UInt64) : Option UInt64 :=
  match tensorType type with
  | none => none
  | some info =>
    if info.blockElems = 0 then none
    else
      let blocks := (elements + info.blockElems - 1) / info.blockElems
      if blocks > uint64Max / info.blockBytes then none else some (blocks * info.blockBytes)

/-- `ds4_kv`. -/
structure Kv where
  key : Bytes
  type : UInt32
  valuePos : UInt64

/-- `ds4_tensor`; it has as many dims as the list. -/
structure Tensor where
  name : Bytes
  dims : List UInt64
  type : UInt32
  relOffset : UInt64
  absOffset : UInt64
  elements : UInt64
  bytes : UInt64

/-- `ds4_model`, its tables as lists. -/
structure Model where
  map : Bytes
  size : UInt64
  alignment : UInt64
  tensorDataPos : UInt64
  maxTensorBytes : UInt64
  kv : List Kv
  tensors : List Tensor

/-- `align_up`. -/
def alignUp (value alignment : UInt64) : UInt64 :=
  if value % alignment = 0 then value else value + alignment - value % alignment

/-! ## Metadata -/

/-- The alignment after an entry was read whose value the cursor `tmp` stands at. -/
def entryAlignment (key : Bytes) (type : UInt32) (tmp : Cursor) (alignment : UInt64) : UInt64 :=
  if key = lit "general.alignment" ∧ type = ggufValueUint32 then
    match tmp.u32 with
    | .ok (a, _) => if a ≠ 0 then a.toUInt64 else alignment
    | .error _ => alignment
  else alignment

/-- The loop of `parse_metadata`: the entries, the alignment, and the cursor behind them. -/
def parseEntries : Nat → Cursor → UInt64 → Except String (List Kv × UInt64 × Cursor)
  | 0, c, alignment => .ok ([], alignment, c)
  | n + 1, c, alignment => do
    let (key, c) ← c.string
    let (type, c) ← c.u32
    let alignment := entryAlignment key type c alignment
    let c' ← skipValue c type 0
    let (kv, alignment, c'') ← parseEntries n c' alignment
    .ok (⟨key, type, c.pos⟩ :: kv, alignment, c'')

/-- `parse_metadata`. -/
def parseMetadata (nKv : UInt64) (c : Cursor) : Except String (List Kv × UInt64 × Cursor) :=
  if nKv > c.size - c.pos then .error "GGUF metadata count exceeds file size"
  else parseEntries nKv.toNat c 32

/-! ## The tensor directory -/

/-- The loop over the dims of a tensor. -/
def readDims : Nat → Cursor → UInt64 → Except String (List UInt64 × UInt64 × Cursor)
  | 0, c, elements => .ok ([], elements, c)
  | n + 1, c, elements => do
    let (dim, c) ← c.u64
    if dim ≠ 0 ∧ elements > uint64Max / dim then .error "tensor element count overflow"
    else
      let (dims, elements, c) ← readDims n c (elements * dim)
      .ok (dim :: dims, elements, c)

/-- `DS4_MAX_DIMS`. -/
def maxDims : UInt32 := 8

/-- An entry of the directory; the bytes of a tensor without a size are zero. -/
def readTensor (c : Cursor) : Except String (Tensor × Cursor) := do
  let (name, c) ← c.string
  let (ndim, c) ← c.u32
  if ndim = 0 ∨ ndim > maxDims then .error "tensor has an unsupported number of dimensions"
  else
    let (dims, elements, c) ← readDims ndim.toNat c 1
    let (type, c) ← c.u32
    let (relOffset, c) ← c.u64
    .ok (⟨name, dims, type, relOffset, 0, elements, (tensorNbytes type elements).getD 0⟩, c)

/-- The first loop of `parse_tensors`. -/
def readTensors : Nat → Cursor → Except String (List Tensor × Cursor)
  | 0, c => .ok ([], c)
  | n + 1, c => do
    let (t, c) ← readTensor c
    let (ts, c) ← readTensors n c
    .ok (t :: ts, c)

/-- One round of the second loop of `parse_tensors`. -/
def placeTensor (size dataPos : UInt64) (t : Tensor) : Except String Tensor :=
  if t.relOffset > uint64Max - dataPos then .error "tensor offset overflow"
  else
    let absOffset := dataPos + t.relOffset
    if t.bytes ≠ 0 ∧ (absOffset > size ∨ t.bytes > size - absOffset) then
      .error "tensor points outside GGUF file"
    else .ok { t with absOffset := absOffset }

/-- The second loop of `parse_tensors`. -/
def placeTensors (size dataPos : UInt64) : List Tensor → Except String (List Tensor)
  | [] => .ok []
  | t :: ts => do
    let t ← placeTensor size dataPos t
    let ts ← placeTensors size dataPos ts
    .ok (t :: ts)

/-- The largest size of some tensors. -/
def maxBytes (ts : List Tensor) : UInt64 := ts.foldl (fun m t => if t.bytes > m then t.bytes else m) 0

/-- `parse_tensors`. -/
def parseTensors (nTensors : UInt64) (map : Bytes) (kv : List Kv) (alignment : UInt64) (c : Cursor) :
    Except String Model :=
  if nTensors > c.size - c.pos then .error "GGUF tensor count exceeds file size"
  else do
    let (ts, c) ← readTensors nTensors.toNat c
    let dataPos := alignUp c.pos alignment
    let ts ← placeTensors c.size dataPos ts
    .ok ⟨map, c.size, alignment, dataPos, maxBytes ts, kv, ts⟩

/-! ## The Engram tables -/

namespace Model

/-- `cursor_at`. -/
def cursorAt (m : Model) (pos : UInt64) : Cursor := ⟨m.map, m.size, pos⟩

/-- `model_find_kv`. -/
def findKv (m : Model) (key : Bytes) : Option Kv := m.kv.find? fun kv => kv.key == key

/-- `model_get_string`. -/
def getString (m : Model) (key : Bytes) : Option Bytes :=
  match m.findKv key with
  | none => none
  | some kv =>
    if kv.type ≠ ggufValueString then none
    else
      match (m.cursorAt kv.valuePos).string with
      | .ok (s, _) => some s
      | .error _ => none

/-- Which Engram table a tensor is. -/
def engramIndex (name : Bytes) : Option (Fin 2) :=
  if name = lit "blk.1.engram_embd.weight" then some 0
  else if name = lit "blk.14.engram_embd.weight" then some 1
  else none

/-- The state of the loop of `model_unmap_engram`. -/
structure EngramScan where
  tables : Fin 2 → Option Tensor
  residentEnd : UInt64
  maxTensorBytes : UInt64

/-- Whether a tensor has the shape of an Engram table. -/
def engramShape (t : Tensor) : Bool :=
  match t.dims with
  | [d0, d1] => t.type == 24 && d0 == 264 && d1 != 0 && decide (d1 ≤ 0xffffffff)
  | _ => false

/-- One round of the loop of `model_unmap_engram`. -/
def engramStep (st : EngramScan) (t : Tensor) : Except String EngramScan :=
  match engramIndex t.name with
  | some i =>
    if (st.tables i).isSome || !engramShape t then
      .error "invalid or duplicate V4.1 Engram tensor"
    else .ok { st with tables := Function.update st.tables i (some t) }
  | none =>
    if t.bytes = 0 then .error "unsupported V4.1 resident tensor type"
    else
      .ok { st with
        residentEnd :=
          if t.absOffset + t.bytes > st.residentEnd then t.absOffset + t.bytes else st.residentEnd
        maxTensorBytes := if t.bytes > st.maxTensorBytes then t.bytes else st.maxTensorBytes }

/-- The loop of `model_unmap_engram`. -/
def engramScan : EngramScan → List Tensor → Except String EngramScan
  | st, [] => .ok st
  | st, t :: ts => do engramScan (← engramStep st t) ts

/-- Whether a model is a V4.1 one. -/
def isDeepseek41 (m : Model) : Bool :=
  m.getString (lit "general.architecture") == some (lit "deepseek41")

/-- `model_unmap_engram`; `page` is what `sysconf` says of the page size. -/
def unmapEngram (m : Model) (page : Int) : Except String Model :=
  if !m.isDeepseek41 then .ok m
  else if m.getString (lit "deepseek41.engram.encoding") ≠ some (lit "e4m3_e8m0_32_row264") then
    .error "unsupported V4.1 Engram row encoding"
  else do
    let st ← engramScan ⟨fun _ => none, m.tensorDataPos, 0⟩ m.tensors
    match st.tables 0, st.tables 1 with
    | some t0, some t1 =>
      let start := t0.absOffset
      if page ≤ 0 ∨ start % UInt64.ofInt page ≠ 0 ∨ st.residentEnd > start ∨
          t1.absOffset < start + t0.bytes then
        .error "V4.1 Engram tables must follow the page-aligned main weights"
      else .ok { m with size := start, maxTensorBytes := st.maxTensorBytes }
    | _, _ => .error "V4.1 GGUF is missing Engram tables"

end Model

/-! ## Opening -/

/-- A model file: its size is an `off_t`. -/
structure ModelFile where
  bytes : Bytes
  length_lt : bytes.length < 2 ^ 63

/-- `DS4_GGUF_MAGIC`. -/
def ggufMagic : UInt32 := 0x46554747

/-- `model_open` up to `model_unmap_engram`. -/
def modelOpen (file : ModelFile) (page : Int) : Except String Model :=
  if file.bytes.length < 32 then .error "model file is too small to be GGUF"
  else do
    let c : Cursor := ⟨file.bytes, UInt64.ofNat file.bytes.length, 0⟩
    let (magic, c) ← c.u32
    if magic ≠ ggufMagic then .error "model is not a GGUF file"
    else
      let (version, c) ← c.u32
      let (nTensors, c) ← c.u64
      let (nKv, c) ← c.u64
      if version ≠ 3 then .error "only GGUF v3 is supported"
      else
        let (kv, alignment, c) ← parseMetadata nKv c
        let m ← parseTensors nTensors file.bytes kv alignment c
        m.unmapEngram page

end Ds4.Gguf
