import SafePreview.Block.Wire

/-!
# Line maps

A line map says which lines of a markup a block stands on. Lines count from 1 and ranges include
both ends. A map that is built by `append` covers the lines from 1 on without a gap, each block
right behind the one before it; a map that was read from outside need not. `blockAt?` looks a line
up by halving, which on ascending ranges finds the only range that can hold it.
-/

namespace SafePreview

/-- **The lines of one block**, first and last. -/
structure LineRange where
  block : BlockId
  first : Nat
  last : Nat
deriving DecidableEq, Repr

namespace LineRange

/-- Whether a line is in the range. -/
def contains (range : LineRange) (line : Nat) : Bool := range.first ≤ line && line ≤ range.last

/-- The number of lines, counted in words of 64 bits: a range that ends before it starts wraps. -/
def size (range : LineRange) : Nat :=
  (range.last + 1 + Nat.pow 2 64 - range.first) % Nat.pow 2 64

/-- The shape of a written range. -/
def record : Json.Record LineRange :=
  (((Json.Record.pure LineRange.mk).seq (.required "blockId" BlockId.shape)).seq
    (.required "startLine" (.count 64 "usize"))).seq (.required "endLine" (.count 64 "usize"))

def shape : Json.Shape LineRange := record.shape "struct LineRange"

def toValue (range : LineRange) : Json.Value :=
  .object [("blockId", range.block.toValue), ("startLine", .ofNat range.first),
    ("endLine", .ofNat range.last)]

end LineRange

/-- **Which lines the blocks stand on**, in their order. -/
structure LineMap where
  ranges : List LineRange
deriving DecidableEq, Repr

namespace LineMap

/-- The map without blocks. -/
def empty : LineMap := ⟨[]⟩

/-- The last line of the map. -/
def lineCount (map : LineMap) : Nat := (map.ranges.getLast?.map (·.last)).getD 0

/-- **The map with one more block**, on the `count` lines behind all others. -/
def append (map : LineMap) (block : BlockId) (count : Nat) : LineMap :=
  ⟨map.ranges ++ [⟨block, map.lineCount + 1, map.lineCount + count⟩]⟩

/-- The number of blocks. -/
def size (map : LineMap) : Nat := map.ranges.length

/-- Where halving ends up among `count` ranges from `base` on, when it looks for the last of those
that `before` holds of. -/
def halve (before : Nat → Bool) (base count : Nat) : Nat :=
  if count ≤ 1 then base
  else
    let half := count / 2
    halve before (if before (base + half) then base + half else base) (count - half)
termination_by count
decreasing_by omega

/-- The number of ranges that end before a line, by halving. -/
def before (map : LineMap) (line : Nat) : Nat :=
  let ends (i : Nat) : Bool :=
    match map.ranges[i]? with
    | some range => range.last < line
    | none => false
  if map.ranges.isEmpty then 0
  else
    let base := halve ends 0 map.ranges.length
    if ends base then base + 1 else base

/-- **The block on a line.** -/
def blockAt? (map : LineMap) (line : Nat) : Option BlockId :=
  match map.ranges[map.before line]? with
  | some range => if range.contains line then some range.block else none
  | none => none

/-- The lines of a block. -/
def rangeOf? (map : LineMap) (block : BlockId) : Option LineRange :=
  map.ranges.find? (·.block = block)

/-- **A map from JSON.** -/
def shape : Json.Shape LineMap := fun t => (Json.Shape.list LineRange.shape t).map LineMap.mk

/-- **A map as JSON.** -/
def toValue (map : LineMap) : Json.Value := .ofList LineRange.toValue map.ranges

end LineMap

end SafePreview
