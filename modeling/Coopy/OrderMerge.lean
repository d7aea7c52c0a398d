import Coopy.Lib.Containers
import Coopy.OrderResult
import Coopy.Table
import Coopy.Viterbi
import Mathlib.Algebra.Order.Ring.Rat

/-!
# `OrderMerge`: the units of a three-way merge and their order

`process` sweeps the local and remote indices into units; then, for columns or
with `use_order`, rounds of cheapest-path search put the units that are not
deleted in an order both sides can live with.  `process` and the rounds are
loops without a visible bound, so they take fuel; `none` is fuel that ran out
(or a failed assertion of `Viterbi`).
-/

namespace Coopy

open Lib Lib.Trellis

namespace OrderMerge

/-! ## The sweep -/

/-- The variables `process` shares between its calls. -/
structure Sweep where
  accum : List MatchUnit
  xlocal : List Int
  xremote : List Int
  baseLocal : Int
  baseRemote : Int

/-- `x.cell(0,i) = 1`, guarded by `i >= 0`. -/
def mark (xs : List Int) (i : Int) : List Int := if i ≥ 0 then xs.set i.toNat 1 else xs

/-- `i<x.height()` and `x.cell(0,i)==0`. -/
def unmarked (xs : List Int) (i : Int) : Bool := decide (i < xs.length) && xs.getD i.toNat 0 == 0

def process (orderLocal orderRemote : OrderResult) :
    Nat → Int → Int → Int → Int → Sweep → Option Sweep
  | 0, _, _, _, _, _ => none
  | fuel + 1, ilocal, iremote, stopLocal, stopRemote, s =>
    if ilocal ≥ stopLocal ∧ iremote ≥ stopRemote then some s
    else if ilocal < stopLocal then
      let swept : Option Sweep :=
        if unmarked s.xlocal ilocal then
          let lp := orderLocal.b2a ilocal
          if lp ≠ -1 then
            let lpr := orderRemote.a2b lp
            if lpr ≠ -1 then
              (process orderLocal orderRemote fuel s.baseLocal s.baseRemote ilocal lpr s).map
                fun s =>
                { s with
                  accum := s.accum ++ [⟨lp, ilocal, lpr, false, .preserve⟩]
                  xremote := mark s.xremote lpr
                  xlocal := mark s.xlocal ilocal }
            else
              some { s with
                accum := s.accum ++ [⟨lp, ilocal, -1, true, .delete⟩], xlocal :=
                  mark s.xlocal ilocal }
          else
            some { s with
              accum := s.accum ++ [⟨-1, ilocal, -1, false, .preserve⟩], xlocal :=
                mark s.xlocal ilocal }
        else some s
      swept.bind fun s =>
        process orderLocal orderRemote fuel (ilocal + 1) iremote stopLocal stopRemote
          { s with baseLocal := s.baseLocal + 1 }
    else
      let s :=
        if unmarked s.xremote iremote then
          if orderRemote.b2a iremote ≠ -1 then s
          else { s with
            accum := s.accum ++ [⟨-1, -1, iremote, false, .insert⟩], xremote :=
              mark s.xremote iremote }
        else s
      process orderLocal orderRemote fuel ilocal (iremote + 1) stopLocal stopRemote
        { s with baseRemote := s.baseRemote + 1 }

/-! ## One round of the order pass -/

/-- What a round gathers about the units it still has to place. -/
structure Links where
  mu : List MatchUnit := []
  p2k : AssocMap Int Nat := []
  l2k : AssocMap Int Nat := []
  r2k : AssocMap Int Nat := []
  availableP : List Int := []
  availableL : List Int := []
  availableR : List Int := []
  lowestL : Int := -2
  lowestR : Int := -2

/-- `m[i] = k` for the indices that are there. -/
def link (m : AssocMap Int Nat) (i : Int) (k : Nat) : AssocMap Int Nat :=
  if i ≥ 0 then m.set i k else m

def offer (s : List Int) (i : Int) : List Int := if i ≠ -1 then setInsert i s else s

/-- The first unit sets `lowest` even to `-1`, which then stays. -/
def lower (lowest i : Int) : Int := if (i < lowest ∧ i ≥ 0) ∨ lowest = -2 then i else lowest

/-- The body of the loop over `canon_src`, for a unit that is not deleted. -/
def Links.enter (w : Links) (unit : MatchUnit) : Links where
  mu := w.mu ++ [unit]
  p2k := link w.p2k unit.pivotUnit w.mu.length
  l2k := link w.l2k unit.localUnit w.mu.length
  r2k := link w.r2k unit.remoteUnit w.mu.length
  availableP := offer w.availableP unit.pivotUnit
  availableL := offer w.availableL unit.localUnit
  availableR := offer w.availableR unit.remoteUnit
  lowestL := lower w.lowestL unit.localUnit
  lowestR := lower w.lowestR unit.remoteUnit

def links (canonSrc : List MatchUnit) : Links :=
  canonSrc.foldl (fun w unit => if unit.deleted then w else w.enter unit) {}

def safeNext (m : AssocMap Int Nat) (val : Int) (dflt : Nat) : Nat := (m.get? val).getD dflt

def nextAvail (s : List Int) (val : Int) : Int := (nextIn s val).getD (-2)

namespace Links

variable (w : Links)

def dud : Nat := w.mu.length

def pnext (unit : MatchUnit) : Nat := safeNext w.p2k (nextAvail w.availableP unit.pivotUnit) w.dud

def lnext (unit : MatchUnit) : Nat := safeNext w.l2k (nextAvail w.availableL unit.localUnit) w.dud

def rnext (unit : MatchUnit) : Nat := safeNext w.r2k (nextAvail w.availableR unit.remoteUnit) w.dud

/-- Where the path may go from a unit. -/
def nexts (unit : MatchUnit) : List Nat :=
  if unit.localUnit = -1 ∧ unit.remoteUnit = -1 then [w.pnext unit]
  else if unit.remoteUnit = -1 then [w.lnext unit]
  else if unit.localUnit = -1 then [w.rnext unit]
  else
    (if w.lnext unit ≠ w.pnext unit then [w.lnext unit] else []) ++
    (if w.rnext unit ≠ w.pnext unit then [w.rnext unit] else []) ++
    (if w.rnext unit = w.pnext unit ∧ w.lnext unit = w.pnext unit then [w.pnext unit] else [])

/-- The start states of the path. -/
def starts : List Nat :=
  (if w.lowestL ≥ 0 then [(w.l2k.get? w.lowestL).getD 0] else []) ++
  (if w.lowestR ≥ 0 then [(w.r2k.get? w.lowestR).getD 0] else [])

def firstStage : Stage ℚ := w.starts.map (fun k => ⟨k, k, 0⟩) ++ [⟨w.dud, w.dud, 1⟩]

/-- The pairs `k`, `next` of one draw from the states `idx`. -/
def drawPairs (idx : List Nat) : List (Nat × Nat) :=
  idx.flatMap fun k =>
    if k = w.dud then []
    else match w.mu[k]? with
      | some unit => (w.nexts unit).map fun next => (k, next)
      | none => []

def drawStage (idx : List Nat) : Stage ℚ :=
  (w.drawPairs idx).map (fun e => ⟨e.1, e.2, 0⟩) ++ [⟨w.dud, w.dud, 1⟩]

/-- The stages of the loop over `draw`, from the states `idx`. -/
def drawStages : Nat → List Nat → List (Stage ℚ)
  | 0, _ => []
  | n + 1, idx => w.drawStage idx :: drawStages n (toSet ((w.drawPairs idx).map Prod.snd))

def lastStage : Stage ℚ :=
  (List.range (w.dud + 1)).map fun draw => ⟨draw, draw, if draw = w.dud then 1 else 0⟩

def stages : List (Stage ℚ) :=
  w.firstStage :: w.drawStages (w.dud - 1) (toSet w.starts) ++ [w.lastStage]

def lattice : Viterbi ℚ := (Viterbi.fresh.setSize (w.dud + 1) (w.dud + 2)).runStages w.stages

/-- The path without its last state, as the accepting loop reads it. -/
def path : Option (List Int) :=
  w.lattice.length.bind fun (v, len) =>
    (List.range (len - 1)).mapM fun i => (v.getPath i).map Prod.snd

end Links

/-- The units a path contributes: up to the first state that repeats one (or is the
dead end), or whose successor does.  Also returns `good`. -/
def acceptPath : List Int → List Int → List Int × Bool
  | _, [] => ([], true)
  | dups, k :: rest =>
    if k ∉ dups ∧ rest.headD k ∉ dups then
      let r := acceptPath (k :: dups) rest
      (k :: r.1, r.2)
    else ([], false)

/-- The rounds: returns `canon` and the last `canon_src`. -/
def rounds : Nat → List MatchUnit → List MatchUnit → Option (List MatchUnit × List MatchUnit)
  | 0, _, _ => none
  | fuel + 1, canon, canonSrc =>
    let w := links canonSrc
    w.path.bind fun path =>
      let (accepted, good) := acceptPath [(w.dud : Int)] path
      let canon := canon ++ accepted.filterMap fun k => w.mu[k.toNat]?
      let kept := (List.range w.mu.length).filter fun k : Nat => decide ((k : Int) ∉ accepted)
      let rest := kept.filterMap fun k => w.mu[k]?
      if good = false ∧ rest.length ≠ w.mu.length then rounds fuel canon rest
        else some (canon, rest)

end OrderMerge

structure OrderMerge where
  accum : List MatchUnit
  overlap : Nat
deriving DecidableEq, Repr

namespace OrderMerge

def countOverlap (accum : List MatchUnit) : Nat :=
  accum.countP fun unit => unit.localUnit != -1 && unit.remoteUnit != -1

/-- The order pass over the units of the sweep. -/
def orderPass (fuel : Nat) (accum : List MatchUnit) : Option (List MatchUnit) :=
  (rounds fuel [] accum).map fun (canon, canonSrc) =>
    canon ++ canonSrc.filter (fun unit => !unit.deleted) ++ accum.filter fun unit => unit.deleted

def trim (o : OrderResult) (flags : CompareFlags) : OrderResult :=
  let o := if flags.headTrimmed then o.trimHead (-1) (-2) else o
  if flags.tailTrimmed then o.trimTail (-1) (-2) else o

/-- The sweep from the start, over both tables. -/
def sweepAll (fuel : Nat) (orderLocal orderRemote : OrderResult) : Option Sweep :=
  process orderLocal orderRemote fuel 0 0 orderLocal.blen orderRemote.blen
    ⟨[], List.replicate orderLocal.blen 0, List.replicate orderRemote.blen 0, 0, 0⟩

def merge (fuel : Nat) (nlocal nremote : OrderResult) (flags : CompareFlags) (columnar : Bool) :
    Option OrderMerge :=
  (sweepAll fuel (trim nlocal flags) (trim nremote flags)).bind fun s =>
    (if flags.useOrder || columnar then orderPass fuel s.accum else some s.accum).map fun accum =>
      ⟨accum, countOverlap accum⟩

/-- Fuel enough for two tables (`merge_eq_some`). -/
def enough (nlocal nremote : OrderResult) : Nat := nlocal.blen + nremote.blen + 1

end OrderMerge

end Coopy
