import NervesSystem.Library.SecondOrder
import NervesSystem.Library.Trace
import Mathlib.Analysis.SpecialFunctions.Pow.Real
import Mathlib.Analysis.SpecialFunctions.Trigonometric.Basic
import Mathlib.Analysis.Complex.Trigonometric

namespace NervesSystem.HpfLimiter
open SecondOrder

/-- What the plugin uses of `math.h`, over the numbers it computes with. -/
class Libm (K : Type*) where
  pi : K
  sin : K → K
  cos : K → K
  pow : K → K → K
  sqrt : K → K
  tanh : K → K

/-- Exact arithmetic. -/
noncomputable instance : Libm ℝ where
  pi := Real.pi
  sin := Real.sin
  cos := Real.cos
  pow := fun x y => x ^ y
  sqrt := Real.sqrt
  tanh := Real.tanh

/-- The frequency `fc` as an angle, `w0` in the formulas. -/
noncomputable def w0 (sr fc : ℝ) : ℝ := 2 * Real.pi * fc / sr

/-- The square root of the gain of a band, `A` in the formulas. -/
noncomputable def amp (db : ℝ) : ℝ := 10 ^ (db / 40)

inductive Port
  | cutoff | warmthHz | warmthDb | presenceHz | presenceQ | presenceDb | airHz | airDb
  | makeup | ceiling | input | output
  deriving DecidableEq

/-- The ports by their number. -/
def Port.all : List Port :=
  [.cutoff, .warmthHz, .warmthDb, .presenceHz, .presenceQ, .presenceDb, .airHz, .airDb,
    .makeup, .ceiling, .input, .output]

inductive Section
  | hp1 | hp2 | warmth | presence | air
  deriving DecidableEq

/-- The sections in series. -/
def sections : List Section := [.hp1, .hp2, .warmth, .presence, .air]

structure Biquad (K : Type*) extends Coeffs K, Taps K

/-- The controls that the sections depend on, as the plugin caches them. -/
@[ext]
structure Bands (K : Type*) where
  cut : K
  whz : K
  wdb : K
  phz : K
  pq : K
  pdb : K
  ahz : K
  adb : K

/-- The memory of the host: one cell for each `LADSPA_Data`. -/
abbrev Mem (K : Type*) := ℕ → K

structure Plugin (K : Type*) where
  port : Port → Option ℕ
  sr : K
  bq : Section → Biquad K
  cache : Bands K
  primed : Bool

section Formulas
variable {K : Type*} [Field K] [Libm K]
open Libm

/-- The formulas give `a0` with the other coefficients; `Biquad.store` divides by it. -/
def bqHighpass (sr fc q : K) : Ratio K :=
  let w0 := 2 * pi * fc / sr
  let cw := cos w0
  let sw := sin w0
  let alpha := sw / (2 * q)
  { a0 := 1 + alpha
    b0 := (1 + cw) * 0.5
    b1 := -(1 + cw)
    b2 := (1 + cw) * 0.5
    a1 := -2 * cw
    a2 := 1 - alpha }

def bqPeaking (sr fc q db : K) : Ratio K :=
  let A := pow 10 (db / 40)
  let w0 := 2 * pi * fc / sr
  let cw := cos w0
  let sw := sin w0
  let alpha := sw / (2 * q)
  { a0 := 1 + alpha / A
    b0 := 1 + alpha * A
    b1 := -2 * cw
    b2 := 1 - alpha * A
    a1 := -2 * cw
    a2 := 1 - alpha / A }

def bqLowshelf (sr fc q db : K) : Ratio K :=
  let A := pow 10 (db / 40)
  let w0 := 2 * pi * fc / sr
  let cw := cos w0
  let sw := sin w0
  let alpha := sw / (2 * q)
  let tsa := 2 * sqrt A * alpha
  { a0 := (A + 1) + (A - 1) * cw + tsa
    b0 := A * ((A + 1) - (A - 1) * cw + tsa)
    b1 := 2 * A * ((A - 1) - (A + 1) * cw)
    b2 := A * ((A + 1) - (A - 1) * cw - tsa)
    a1 := -2 * ((A - 1) + (A + 1) * cw)
    a2 := (A + 1) + (A - 1) * cw - tsa }

def bqHighshelf (sr fc q db : K) : Ratio K :=
  let A := pow 10 (db / 40)
  let w0 := 2 * pi * fc / sr
  let cw := cos w0
  let sw := sin w0
  let alpha := sw / (2 * q)
  let tsa := 2 * sqrt A * alpha
  { a0 := (A + 1) - (A - 1) * cw + tsa
    b0 := A * ((A + 1) + (A - 1) * cw + tsa)
    b1 := -2 * A * ((A - 1) + (A + 1) * cw)
    b2 := A * ((A + 1) + (A - 1) * cw - tsa)
    a1 := 2 * ((A - 1) - (A + 1) * cw)
    a2 := (A + 1) - (A - 1) * cw - tsa }

def shelfQ : K := 0.70710678

def Biquad.store (b : Biquad K) (r : Ratio K) : Biquad K := { b with toCoeffs := r.normalize }

end Formulas

section Plugin
variable {K : Type*} [Field K] [LinearOrder K] [Libm K]
open Libm

def val (p : Plugin K) (mem : Mem K) (port : Port) (dflt : K) : K :=
  match p.port port with
  | some d => mem d
  | none => dflt

def recompute (p : Plugin K) (mem : Mem K) : Plugin K :=
  let nyq := p.sr * 0.45
  let cut := val p mem .cutoff 180
  let whz := val p mem .warmthHz 250
  let wdb := val p mem .warmthDb 0
  let phz := val p mem .presenceHz 2500
  let pq := val p mem .presenceQ 1
  let pdb := val p mem .presenceDb 0
  let ahz := val p mem .airHz 8000
  let adb := val p mem .airDb 0
  let cut := if cut < 20 then 20 else cut
  let cut := if cut > nyq then nyq else cut
  let whz := if whz > nyq then nyq else whz
  let phz := if phz > nyq then nyq else phz
  let ahz := if ahz > nyq then nyq else ahz
  let pq := if pq < 0.1 then 0.1 else pq
  { p with
    bq := fun
      | .hp1 => (p.bq .hp1).store (bqHighpass p.sr cut 0.54119610)
      | .hp2 => (p.bq .hp2).store (bqHighpass p.sr cut 1.30656296)
      | .warmth => (p.bq .warmth).store (bqLowshelf p.sr whz shelfQ wdb)
      | .presence => (p.bq .presence).store (bqPeaking p.sr phz pq pdb)
      | .air => (p.bq .air).store (bqHighshelf p.sr ahz shelfQ adb)
    cache := ⟨cut, whz, wdb, phz, pq, pdb, ahz, adb⟩
    primed := true }

def controlsMoved (p : Plugin K) (mem : Mem K) : Bool :=
  !p.primed ||
    decide (val p mem .cutoff 180 ≠ p.cache.cut) ||
    decide (val p mem .warmthHz 250 ≠ p.cache.whz) ||
    decide (val p mem .warmthDb 0 ≠ p.cache.wdb) ||
    decide (val p mem .presenceHz 2500 ≠ p.cache.phz) ||
    decide (val p mem .presenceQ 1 ≠ p.cache.pq) ||
    decide (val p mem .presenceDb 0 ≠ p.cache.pdb) ||
    decide (val p mem .airHz 8000 ≠ p.cache.ahz) ||
    decide (val p mem .airDb 0 ≠ p.cache.adb)

/-- `calloc` leaves every pointer null and every number zero. -/
def instantiate (sr : ℕ) : Plugin K where
  port := fun _ => none
  sr := sr
  bq := fun _ => ⟨⟨0, 0, 0, 0, 0⟩, 0⟩
  cache := ⟨0, 0, 0, 0, 0, 0, 0, 0⟩
  primed := false

def connectPort (p : Plugin K) (port : ℕ) (data : Option ℕ) : Plugin K :=
  match Port.all[port]? with
  | some q => { p with port := Function.update p.port q data }
  | none => p

example (p : Plugin K) (data : Option ℕ) : connectPort p 12 data = p := rfl

def activate (p : Plugin K) : Plugin K :=
  { p with
    bq := fun s => { p.bq s with x1 := 0, x2 := 0, y1 := 0, y2 := 0 }
    primed := false }

/-- One turn of the loop over the sections: the sample `sv.2` goes through section `s`. -/
def filterStep (sv : (Section → Biquad K) × K) (s : Section) : (Section → Biquad K) × K :=
  let b := sv.1 s
  let v := sv.2
  let y := b.b0 * v + b.b1 * b.x1 + b.b2 * b.x2 - b.a1 * b.y1 - b.a2 * b.y2
  (Function.update sv.1 s { b with x2 := b.x1, x1 := v, y2 := b.y1, y1 := y }, y)

/-- One turn of the loop over the block. -/
def sample (inp out : ℕ) (g ceil invCeil : K) (pm : Plugin K × Mem K) (i : ℕ) :
    Plugin K × Mem K :=
  let sv := sections.foldl filterStep (pm.1.bq, pm.2 (inp + i))
  let v := sv.2 * g
  let v := ceil * tanh (v * invCeil)
  ({ pm.1 with bq := sv.1 }, Function.update pm.2 (out + i) v)

/-- A null audio port is an error once there is a sample to process. -/
def run (p : Plugin K) (mem : Mem K) (n : ℕ) : Option (Plugin K × Mem K) :=
  let g := pow 10 (val p mem .makeup 0 / 20)
  let ceil := val p mem .ceiling 1
  let ceil := if ceil < 0.05 then 0.05 else ceil
  let ceil := if ceil > 1 then 1 else ceil
  let invCeil := 1 / ceil
  let p' := if controlsMoved p mem then recompute p mem else p
  if n = 0 then some (p', mem)
  else
    match p.port .input, p.port .output with
    | some inp, some out =>
      some ((List.range n).foldl (sample inp out g ceil invCeil) (p', mem))
    | _, _ => none

end Plugin

section Host

/-- The values of all control ports. -/
structure Controls (K : Type*) extends Bands K where
  makeup : K
  ceil : K

/-- What a host does with an instance; `write` is anything it does to its own memory. -/
inductive Call (K : Type*)
  | connectPort (port : ℕ) (data : Option ℕ)
  | activate
  | run (n : ℕ)
  | write (mem : Mem K)

/-- An instance and its host, with what the instance was given since it was last activated,
each sample under the controls of its call, and what the host then found in its buffers. -/
structure Host (K : Type*) where
  plugin : Plugin K
  mem : Mem K
  played : List (Controls K × K)
  heard : List K

variable {K : Type*} [Field K] [LinearOrder K] [Libm K]

def controls (p : Plugin K) (mem : Mem K) : Controls K where
  cut := val p mem .cutoff 180
  whz := val p mem .warmthHz 250
  wdb := val p mem .warmthDb 0
  phz := val p mem .presenceHz 2500
  pq := val p mem .presenceQ 1
  pdb := val p mem .presenceDb 0
  ahz := val p mem .airHz 8000
  adb := val p mem .airDb 0
  makeup := val p mem .makeup 0
  ceil := val p mem .ceiling 1

/-- A buffer of the host, as a port points to it. -/
def block (mem : Mem K) (n : ℕ) : Option ℕ → List K
  | some a => (List.range n).map fun i => mem (a + i)
  | none => []

def call (h : Host K) : Call K → Option (Host K)
  | .connectPort port data => some { h with plugin := connectPort h.plugin port data }
  | .activate => some { h with plugin := activate h.plugin, played := [], heard := [] }
  | .run n =>
    (run h.plugin h.mem n).map fun pm =>
      { plugin := pm.1
        mem := pm.2
        played := h.played ++
          (block h.mem n (h.plugin.port .input)).map fun v => (controls h.plugin h.mem, v)
        heard := h.heard ++ block pm.2 n (h.plugin.port .output) }
  | .write mem => some { h with mem := mem }

def step (h : Option (Host K)) (c : Call K) : Option (Host K) := h.bind (call · c)

def Host.new (sr : ℕ) (mem : Mem K) : Host K := ⟨instantiate sr, mem, [], []⟩

/-- The calls of a host on a new instance. -/
def session (sr : ℕ) (mem : Mem K) (calls : List (Call K)) : Option (Host K) :=
  calls.foldl step (some (.new sr mem))

end Host

section Reference
variable {K : Type*} [Field K] [LinearOrder K] [Libm K]
open Libm

/-- The controls as the sections take them, for the sample rate `sr`. -/
def Bands.clamp (sr : K) (b : Bands K) : Bands K :=
  { b with
    cut := min (max b.cut 20) (sr * 0.45)
    whz := min b.whz (sr * 0.45)
    phz := min b.phz (sr * 0.45)
    pq := max b.pq 0.1
    ahz := min b.ahz (sr * 0.45) }

def Bands.ratio (sr : K) (b : Bands K) : Section → Ratio K
  | .hp1 => bqHighpass sr b.cut 0.54119610
  | .hp2 => bqHighpass sr b.cut 1.30656296
  | .warmth => bqLowshelf sr b.whz shelfQ b.wdb
  | .presence => bqPeaking sr b.phz b.pq b.pdb
  | .air => bqHighshelf sr b.ahz shelfQ b.adb

/-- Coefficients fresh from the controls. -/
def Bands.coeffs (sr : K) (b : Bands K) (s : Section) : Coeffs K :=
  ((b.clamp sr).ratio sr s).normalize

/-- Makeup gain, as a factor. -/
def Controls.gain (c : Controls K) : K := pow 10 (c.makeup / 20)

/-- Gain and limiter. -/
def Controls.limit (c : Controls K) (v : K) : K :=
  let ceil := min (max c.ceil 0.05) 1
  ceil * tanh (v * c.gain / ceil)

/-- The chain of the sections `l`, sample by sample, each sample under its own controls. -/
def reference (l : List Section) (sr : K) : (Section → Taps K) → List (Controls K × K) → List K
  | _, [] => []
  | t, (c, v) :: stream =>
    let tv := series (c.coeffs sr) l t v
    c.limit tv.2 :: reference l sr tv.1 stream

end Reference

end NervesSystem.HpfLimiter
