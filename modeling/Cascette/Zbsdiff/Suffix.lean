import Cascette.Lib.Bytes
import Cascette.Lib.Checked

/-!
# The suffix-array differ

`compute_diff` walks over the new data, looking each position up in the suffix array of the old
data, and cuts the new data into pieces: bytes that are stored as differences to old bytes, bytes
that are stored as they are, and a seek in the old data. Positions and lengths are unsigned, so
every subtraction and every index is checked here; signed values are integers. Each `while` loop
takes fuel.
-/

namespace Cascette.Zbsdiff

open Lib

structure ControlEntry where
  diffSize : Int
  extraSize : Int
  seekOffset : Int
deriving DecidableEq, Repr

structure DiffResult where
  control : List ControlEntry
  diffData : Bytes
  extraData : Bytes
deriving DecidableEq, Repr

/-- The number of bytes two strings have in common at their start. -/
def matchlen : Bytes → Bytes → Nat
  | x :: xs, y :: ys => if x = y then matchlen xs ys + 1 else 0
  | _, _ => 0

/-! ## Searching -/

/-- The suffix at the pivot lies below the query, or begins with it. -/
def belowPivot (old query : Bytes) (pivotPos pivotLen : Nat) : Checked Bool :=
  if pivotLen = query.length then .ok true
  else if pivotPos + pivotLen < old.length then do
    let a ← getAt old (pivotPos + pivotLen)
    let b ← getAt query pivotLen
    .ok (decide (a < b))
  else .ok false

def bisect (sa : List Nat) (old query : Bytes) : Nat → Nat → Nat → Checked (Nat × Nat)
  | 0, _, _ => .error .outOfFuel
  | fuel + 1, st, en => do
    let width ← checkedSub en st
    if 1 < width then
      let pivot := st + width / 2
      let pivotPos ← getAt sa pivot
      let suffix ← sliceFrom old pivotPos
      let below ← belowPivot old query pivotPos (matchlen suffix query)
      if below then bisect sa old query fuel pivot en else bisect sa old query fuel st pivot
    else .ok (st, en)

/-- A position in the old data and the length of the match there. -/
def search (sa : List Nat) (old query : Bytes) : Checked (Nat × Nat) :=
  if sa.isEmpty || query.isEmpty then .ok (0, 0)
  else do
    let last ← checkedSub sa.length 1
    let (st, en) ← bisect sa old query sa.length 0 last
    let startPos ← getAt sa st
    let endPos ← getAt sa en
    let startSuffix ← sliceFrom old startPos
    let endSuffix ← sliceFrom old endPos
    let startLen := matchlen startSuffix query
    let endLen := matchlen endSuffix query
    .ok (if endLen < startLen then (startPos, startLen) else (endPos, endLen))

/-! ## Scanning -/

/-- Whether the byte at `i` matches the old byte at the last offset. -/
def driftMatch (old new : Bytes) (lastoffset : Int) (i : Nat) : Checked Bool :=
  let oldIdx : Int := i + lastoffset
  if 0 ≤ oldIdx ∧ oldIdx < old.length then do
    let a ← getAt old oldIdx.toNat
    let b ← getAt new i
    .ok (decide (a = b))
  else .ok false

/-- `steps` turns of the loop that advances `scsc`. -/
def countDrift (old new : Bytes) (lastoffset : Int) : Nat → Nat → Nat → Checked Nat
  | 0, _, oldscore => .ok oldscore
  | steps + 1, scsc, oldscore => do
    let isMatch ← driftMatch old new lastoffset scsc
    countDrift old new lastoffset steps (scsc + 1) (if isMatch then oldscore + 1 else oldscore)

structure Scan where
  scan : Nat
  scsc : Nat
  oldscore : Nat
  pos : Nat
  len : Nat

/-- The match is taken: the last offset explains it all, or it is better by more than eight. -/
def accepts (len oldscore : Nat) : Bool := (len == oldscore && len != 0) || oldscore + 8 < len

/-- The scan is about to pass a byte: its match no longer counts. -/
def undoScore (isMatch : Bool) (oldscore : Nat) : Checked Nat :=
  if isMatch then checkedSub oldscore 1 else .ok oldscore

def scanLoop (sa : List Nat) (old new : Bytes) (lastoffset : Int) : Nat → Scan → Checked Scan
  | 0, _ => .error .outOfFuel
  | fuel + 1, s =>
    if s.scan < new.length then do
      let query ← sliceFrom new s.scan
      let (pos, len) ← search sa old query
      let oldscore ← countDrift old new lastoffset (s.scan + len - s.scsc) s.scsc s.oldscore
      let scsc := max s.scsc (s.scan + len)
      if accepts len oldscore then .ok ⟨s.scan, scsc, oldscore, pos, len⟩
      else do
        let isMatch ← driftMatch old new lastoffset s.scan
        let oldscore ← undoScore isMatch oldscore
        scanLoop sa old new lastoffset fuel ⟨s.scan + 1, scsc, oldscore, pos, len⟩
    else .ok s

/-! ## Extending a match -/

/-- The best length `lenf` of the piece after the last match. -/
def extendForward (old new : Bytes) (lastscan lastpos scan : Nat) :
    Nat → Nat → Int → Int → Nat → Checked Nat
  | 0, _, _, _, _ => .error .outOfFuel
  | fuel + 1, i, s, sf, lenf =>
    if lastscan + i < scan ∧ lastpos + i < old.length then do
      let a ← getAt old (lastpos + i)
      let b ← getAt new (lastscan + i)
      let s := if a = b then s + 1 else s
      let i := i + 1
      if s * 2 - i > sf * 2 - lenf then extendForward old new lastscan lastpos scan fuel i s s i
      else extendForward old new lastscan lastpos scan fuel i s sf lenf
    else .ok lenf

/-- The best length `lenb` of the piece before the current match. -/
def extendBackward (old new : Bytes) (lastscan pos scan : Nat) :
    Nat → Nat → Int → Int → Nat → Checked Nat
  | 0, _, _, _, _ => .error .outOfFuel
  | fuel + 1, i, s, sb, lenb =>
    if lastscan + i ≤ scan ∧ i ≤ pos then do
      let a ← getAt old (← checkedSub pos i)
      let b ← getAt new (← checkedSub scan i)
      let s := if a = b then s + 1 else s
      if s * 2 - i > sb * 2 - lenb then
        extendBackward old new lastscan pos scan fuel (i + 1) s s i
      else extendBackward old new lastscan pos scan fuel (i + 1) s sb lenb
    else .ok lenb

/-- At the end of the new data there is no match to extend. -/
def backwardLen (old new : Bytes) (fuel lastscan pos scan : Nat) : Checked Nat :=
  if scan < new.length then extendBackward old new lastscan pos scan fuel 1 0 0 0 else .ok 0

/-- Where the two pieces overlap, the split `lens`: `steps` turns of the loop from `i`. -/
def splitOverlap (old new : Bytes) (newf oldf newb oldb : Nat) :
    Nat → Nat → Int → Int → Nat → Checked Nat
  | 0, _, _, _, lens => .ok lens
  | steps + 1, i, s, ss, lens => do
    let a ← getAt new (newf + i)
    let b ← getAt old (oldf + i)
    let s := if a = b then s + 1 else s
    let c ← getAt new (newb + i)
    let d ← getAt old (oldb + i)
    let s := if c = d then s - 1 else s
    if s > ss then splitOverlap old new newf oldf newb oldb steps (i + 1) s s (i + 1)
    else splitOverlap old new newf oldf newb oldb steps (i + 1) s ss lens

/-- The lengths `lenf` and `lenb` after the overlap is resolved. -/
def extend (old new : Bytes) (fuel lastscan lastpos scan pos : Nat) : Checked (Nat × Nat) := do
  let lenf ← extendForward old new lastscan lastpos scan fuel 0 0 0 0
  let lenb ← backwardLen old new fuel lastscan pos scan
  let start ← checkedSub scan lenb
  if start < lastscan + lenf then
    let overlap ← checkedSub (lastscan + lenf) start
    let newf ← checkedSub (lastscan + lenf) overlap
    let oldf ← checkedSub (lastpos + lenf) overlap
    let newb ← checkedSub scan lenb
    let oldb ← checkedSub pos lenb
    let lens ← splitOverlap old new newf oldf newb oldb overlap 0 0 0 0
    let lenf ← checkedSub (lenf + lens) overlap
    let lenb ← checkedSub lenb lens
    .ok (lenf, lenb)
  else .ok (lenf, lenb)

/-- The differences of `lenf` bytes, as wrapping subtraction. -/
def collectDiff (old new : Bytes) (lastscan lastpos : Nat) : Nat → Checked Bytes
  | 0 => .ok []
  | n + 1 => do
    let front ← collectDiff old new lastscan lastpos n
    let a ← getAt new (lastscan + n)
    let b ← getAt old (lastpos + n)
    .ok (front ++ [a - b])

def collectExtra (new : Bytes) (extraStart extraEnd : Nat) : Checked Bytes :=
  if extraStart < extraEnd then slice new extraStart extraEnd else .ok []

/-! ## The differ -/

structure Differ where
  scan : Nat
  len : Nat
  pos : Nat
  lastscan : Nat
  lastpos : Nat
  lastoffset : Int
  result : DiffResult

/-- Writes the piece that ends at the current match and moves on to it. -/
def emit (old new : Bytes) (fuel : Nat) (d : Differ) : Checked Differ := do
  let (lenf, lenb) ← extend old new fuel d.lastscan d.lastpos d.scan d.pos
  let diff ← collectDiff old new d.lastscan d.lastpos lenf
  let extraStart := d.lastscan + lenf
  let extraEnd ← checkedSub d.scan lenb
  let extra ← collectExtra new extraStart extraEnd
  let extraSize ← checkedSub extraEnd extraStart
  let lastpos ← checkedSub d.pos lenb
  .ok { d with
    lastscan := extraEnd
    lastpos
    lastoffset := (d.pos : Int) - d.scan
    result := {
      control := d.result.control ++ [⟨lenf, extraSize,
        ((d.pos : Int) - lenb) - ((d.lastpos : Int) + lenf)⟩]
      diffData := d.result.diffData ++ diff
      extraData := d.result.extraData ++ extra } }

def diffLoop (sa : List Nat) (old new : Bytes) (fuel : Nat) : Nat → Differ → Checked DiffResult
  | 0, _ => .error .outOfFuel
  | turns + 1, d =>
    if d.scan < new.length then do
      let start := d.scan + d.len
      let s ← scanLoop sa old new d.lastoffset fuel ⟨start, start, 0, d.pos, d.len⟩
      let d := { d with scan := s.scan, len := s.len, pos := s.pos }
      if s.len ≠ s.oldscore ∨ s.scan = new.length then do
        let d ← emit old new fuel d
        diffLoop sa old new fuel turns d
      else diffLoop sa old new fuel turns d
    else .ok d.result

/-- `sort` is the suffix sorter the code links. -/
def computeDiff (sort : Bytes → List Nat) (old new : Bytes) : Checked DiffResult :=
  let sa := if 0 < old.length then sort old else []
  let fuel := old.length + new.length + 2
  diffLoop sa old new fuel fuel ⟨0, 0, 0, 0, 0, 0, ⟨[], [], []⟩⟩

end Cascette.Zbsdiff
