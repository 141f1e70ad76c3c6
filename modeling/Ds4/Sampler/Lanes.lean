import Ds4.Lib.FirstMax
import Mathlib.Data.UInt
import Mathlib.Algebra.BigOperators.Fin
import Mathlib.Tactic

/-!
# Maximum searches in lanes

`argmaxF32Unrolled8Range` scans a part of a row in eight lanes and `sampleScanSimd` the finite entries of
a row in sixteen; both merge the lanes by value and then by id, and finish with the scalar rule. A
`float` is its bits here, so both zeros, the infinities and every NaN are told apart where the source
tells them apart. An id is an `int` in the eight lanes: `toInt` is the cast.
-/

namespace Ds4.Sampler

open Ds4.Lib

/-! ## Floats -/

/-- A `float`, by its bits. -/
structure F32 where
  bits : UInt32
deriving DecidableEq

namespace F32

/-- The bits without the sign. -/
def magnitude (x : F32) : UInt32 := x.bits &&& 0x7fffffff

/-- A number's place in the order of numbers, which both zeros share; a NaN has none. -/
def place (x : F32) : Option Int :=
  if 0x7f800000 < x.magnitude then none
  else some (if x.bits &&& 0x80000000 = 0 then x.magnitude.toNat else -x.magnitude.toNat)

/-- `>`. -/
def gt (x y : F32) : Bool := above place x y

/-- `==`. -/
def eq (x y : F32) : Bool := level place x y

/-- `isfinite`. -/
def isFinite (x : F32) : Bool := x.bits &&& 0x7f800000 != 0x7f800000

end F32

/-- `DS4_NEG_INF`, which is `-1.0e30f`. -/
def negInfF32 : F32 := ⟨0xf149f2ca⟩

example : F32.gt ⟨0⟩ ⟨0x80000000⟩ = false ∧ F32.eq ⟨0⟩ ⟨0x80000000⟩ = true ∧
    F32.gt ⟨0x7fc00000⟩ negInfF32 = false ∧ F32.gt negInfF32 ⟨0xff800000⟩ = true := by decide

/-- A row of logits; its length is a `uint32_t`. -/
structure Row where
  logits : List F32
  length_lt : logits.length < 2 ^ 32

/-- `n_vocab`. -/
def Row.size (r : Row) : Nat := r.logits.length

/-- `logits[i]`. -/
def Row.at (r : Row) (i : Nat) : F32 := r.logits.getD i ⟨0⟩

/-- `(int)i`. -/
def toInt (i : Nat) : Int := (Int32.ofNat i).toInt

/-! ## Eight lanes -/

/-- `if (x > v) { v = x; b = (int)i; }`. -/
def argmaxStep (best : Int × F32) (i : Nat) (x : F32) : Int × F32 :=
  if x.gt best.2 then (toInt i, x) else best

/-- The unrolled loop from `i`, for the given number of rounds: where it stops, and the lanes. -/
def argmaxLanes (r : Row) : Nat → Nat → (Fin 8 → Int × F32) → Nat × (Fin 8 → Int × F32)
  | 0, i, lanes => (i, lanes)
  | n + 1, i, lanes =>
    argmaxLanes r n (i + 8) fun k => argmaxStep (lanes k) (i + k) (r.at (i + k))

/-- `DS4_ARGMAX_MERGE_LANE`. -/
def argmaxMergeLane (best lane : Int × F32) : Int × F32 :=
  if lane.2.gt best.2 || (lane.2.eq best.2 && decide (lane.1 < best.1)) then lane else best

/-- The scalar loop from `i`, for the given number of entries. -/
def argmaxScalar (r : Row) : Nat → Nat → Int × F32 → Int × F32
  | 0, _, best => best
  | n + 1, i, best => argmaxScalar r n (i + 1) (argmaxStep best i (r.at i))

/-- `argmax_f32_unrolled8_range`. -/
def argmaxF32Unrolled8Range (r : Row) (start stop : Nat) (best : Int × F32) : Int × F32 :=
  let (i, lanes) := argmaxLanes r ((stop - start) / 8) start fun _ => best
  argmaxScalar r (stop - i) i (((List.finRange 8).map lanes).foldl argmaxMergeLane best)

/-- `sample_argmax_unrolled8`. -/
def sampleArgmaxUnrolled8 (r : Row) : Int := (argmaxF32Unrolled8Range r 0 r.size (0, negInfF32)).1

/-- The scalar loop of `sample_argmax`. -/
def sampleArgmaxScalar (r : Row) : Int := (argmaxScalar r r.size 0 (0, negInfF32)).1

/-- `sample_argmax`; `disabled` says that `DS4_CPU_DISABLE_UNROLLED_ARGMAX` is set. -/
def sampleArgmaxEnv (disabled : Bool) (r : Row) : Int :=
  if disabled then sampleArgmaxScalar r else sampleArgmaxUnrolled8 r

/-- `argmax_f32_excluding_unrolled8`. -/
def argmaxF32ExcludingUnrolled8 (r : Row) (excludedId : Int) : Int :=
  let first := if excludedId = 0 then 1 else 0
  if r.size ≤ first then -1
  else
    let best := (toInt first, r.at first)
    let start := first + 1
    if 0 ≤ excludedId ∧ start ≤ excludedId.toNat ∧ excludedId.toNat < r.size then
      let best := argmaxF32Unrolled8Range r start excludedId.toNat best
      (argmaxF32Unrolled8Range r (excludedId.toNat + 1) r.size best).1
    else (argmaxF32Unrolled8Range r start r.size best).1

/-- The scalar loop over all ids but one, from `i`, for the given number of entries. -/
def excludingLoop (r : Row) (excludedId : Int) : Nat → Nat → Int × F32 → Int × F32
  | 0, _, best => best
  | n + 1, i, best =>
    excludingLoop r excludedId n (i + 1)
      (if toInt i = excludedId then best
      else if best.1 < 0 ∨ (r.at i).gt best.2 then (toInt i, r.at i) else best)

/-- The scalar search over all ids but one. -/
def argmaxExcludingScalar (r : Row) (excludedId : Int) : Int :=
  (excludingLoop r excludedId r.size 0 (-1, negInfF32)).1

/-! ## Sixteen lanes -/

/-- A vector register of four lanes. -/
abbrev Quad (α : Type) := Fin 4 → α

/-- `vdupq`. -/
def vdupq {α : Type} (x : α) : Quad α := fun _ => x

/-- `vceqq_u32`. -/
def vceqqU32 (a b : Quad UInt32) : Quad UInt32 := fun j => if a j = b j then 0xffffffff else 0

/-- `vcgtq_f32`. -/
def vcgtqF32 (a b : Quad F32) : Quad UInt32 := fun j => if (a j).gt (b j) then 0xffffffff else 0

/-- `vandq_u32`. -/
def vandqU32 (a b : Quad UInt32) : Quad UInt32 := fun j => a j &&& b j

/-- `vmvnq_u32`. -/
def vmvnqU32 (a : Quad UInt32) : Quad UInt32 := fun j => ~~~ a j

/-- `vaddq_u32`. -/
def vaddqU32 (a b : Quad UInt32) : Quad UInt32 := fun j => a j + b j

/-- `vsubq_u32`. -/
def vsubqU32 (a b : Quad UInt32) : Quad UInt32 := fun j => a j - b j

/-- `vbslq_u32`. -/
def vbslqU32 (m a b : Quad UInt32) : Quad UInt32 := fun j => (m j &&& a j) ||| (~~~ m j &&& b j)

/-- `vreinterpretq_u32_f32`. -/
def vreinterpretqU32F32 (a : Quad F32) : Quad UInt32 := fun j => (a j).bits

/-- `vbslq_f32`. -/
def vbslqF32 (m : Quad UInt32) (a b : Quad F32) : Quad F32 := fun j =>
  ⟨vbslqU32 m (vreinterpretqU32F32 a) (vreinterpretqU32F32 b) j⟩

local instance neZeroLanes : NeZero 4 := ⟨by decide⟩

/-- `vaddvq_u32`. -/
def vaddvqU32 (a : Quad UInt32) : UInt32 := a 0 + a 1 + a 2 + a 3

/-- The registers `mv[k]`, `mi[k]`, `cnt[k]` and `idx[k]`. -/
structure ScanRegs where
  mv : Quad F32
  mi : Quad UInt32
  cnt : Quad UInt32
  idx : Quad UInt32

/-- The registers before the loop. -/
def ScanRegs.init (k : Fin 4) : ScanRegs where
  mv := vdupq negInfF32
  mi := vdupq 0
  cnt := vdupq 0
  idx j := 4 * UInt32.ofNat k + UInt32.ofNat j

/-- Four entries of a row. -/
def ScanRegs.step (s : ScanRegs) (v : Quad F32) : ScanRegs :=
  let fin := vmvnqU32 (vceqqU32 (vandqU32 (vreinterpretqU32F32 v) (vdupq 0x7f800000))
    (vdupq 0x7f800000))
  let gt := vandqU32 fin (vcgtqF32 v s.mv)
  { mv := vbslqF32 gt v s.mv
    mi := vbslqU32 gt s.idx s.mi
    cnt := vsubqU32 s.cnt fin
    idx := vaddqU32 s.idx (vdupq 16) }

/-- The vector loop from `i`, for the given number of rounds. -/
def scanRegsLoop (r : Row) : Nat → Nat → (Fin 4 → ScanRegs) → Fin 4 → ScanRegs
  | 0, _, s => s
  | n + 1, i, s => scanRegsLoop r n (i + 16) fun k => (s k).step fun j => r.at (i + 4 * k + j)

/-- `finite`, `max_logit` and `best`. -/
structure ScanF32 where
  finite : UInt32
  maxLogit : F32
  best : UInt32
deriving DecidableEq

/-- One lane merged. -/
def ScanF32.mergeLane (s : ScanF32) (lv : F32) (li : UInt32) : ScanF32 :=
  if lv.gt s.maxLogit || (lv.eq s.maxLogit && lv.gt negInfF32 && decide (li < s.best)) then
    { s with maxLogit := lv, best := li }
  else s

/-- The four lanes of one register merged. -/
def ScanF32.mergeRegs (s : ScanF32) (v : ScanRegs) : ScanF32 :=
  (List.finRange 4).foldl (fun s j => s.mergeLane (v.mv j) (v.mi j))
    { s with finite := s.finite + vaddvqU32 v.cnt }

/-- One entry of the scalar loop. -/
def ScanF32.step (s : ScanF32) (i : Nat) (v : F32) : ScanF32 :=
  if !v.isFinite then s
  else if v.gt s.maxLogit then ⟨s.finite + 1, v, UInt32.ofNat i⟩
  else { s with finite := s.finite + 1 }

/-- The scalar loop over the finite entries from `i`, for the given number of entries. -/
def scanScalarLoop (r : Row) : Nat → Nat → ScanF32 → ScanF32
  | 0, _, s => s
  | n + 1, i, s => scanScalarLoop r n (i + 1) (s.step i (r.at i))

/-- `sample_scan_simd`; `best` is cast to an `int` where it is stored. -/
def sampleScanSimd (r : Row) : ScanF32 :=
  let nv := (UInt32.ofNat r.size &&& ~~~ 15).toNat
  let regs := scanRegsLoop r (nv / 16) 0 ScanRegs.init
  scanScalarLoop r (r.size - nv) nv (((List.finRange 4).map regs).foldl ScanF32.mergeRegs ⟨0, negInfF32, 0⟩)

/-- The scalar first pass over the finite entries. -/
def sampleScanScalar (r : Row) : ScanF32 := scanScalarLoop r r.size 0 ⟨0, negInfF32, 0⟩

end Ds4.Sampler
