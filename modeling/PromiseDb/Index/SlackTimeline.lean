import PromiseDb.Domain.Promise

/-!
# The blocked slack index

A slack timeline records the timestamps at which the available capacity of one pool changes.
The points are stored in blocks; a block carries the minimum and the maximum of its effective
slack and a delta that applies to all of its points without being written into them.  Updates
write the boundary blocks point by point and only change the delta of the blocks between them.

An operation on a timeline may stop in the middle, so it runs in a state monad that keeps what
was written before the failure.  The operations on a single block write nothing when they fail
and are plain functions.
-/

namespace PromiseDb

/-- Signed available capacity. -/
abbrev Slack := I64

/-- The errors of index updates. -/
inductive IndexError
  | unsortedSlackPoints
  | duplicateSlackTimestamp
  | slackOverflow
  | invalidPointRange
  | inconsistentUsage
  /-- The source would index outside a list and panic. -/
  | outOfBounds
  deriving DecidableEq, Repr

/-- A half-open interval where effective slack is negative. -/
structure SlackDeficit where
  /-- The interval of the deficit. -/
  interval : Interval
  /-- The positive magnitude of the deficit. -/
  amount : Quantity
  deriving DecidableEq

/-- A timestamp at which the slack changes. -/
structure SlackPoint where
  /-- The timestamp from which the value applies. -/
  timestamp : Timestamp
  /-- The stored slack, before the delta of the block. -/
  slack : Slack
  deriving DecidableEq

/-- A contiguous group of chronologically ordered points. -/
structure SlackBlock where
  /-- The stored points. -/
  points : List SlackPoint
  /-- The effective minimum, after the delta. -/
  minimumSlack : Option Slack
  /-- The effective maximum, after the delta. -/
  maximumSlack : Option Slack
  /-- The slack change not written into the points. -/
  slackDelta : Slack
  deriving DecidableEq

/-- A blocked slack index of one resource pool. -/
structure SlackTimeline where
  /-- The blocks in chronological order. -/
  blocks : List SlackBlock
  deriving DecidableEq

/-- How many points a block may hold before it is split. -/
def maxPointsPerBlock : Nat := 256

/-! ## Slack arithmetic -/

/-- Checked addition of slack values. -/
def addSlack (a b : Slack) : Except IndexError Slack :=
  match a.checkedAdd b with
  | some c => .ok c
  | none => .error .slackOverflow

/-- The smallest slack of a list of points. -/
def minimumOf (points : List SlackPoint) : Option Slack :=
  points.foldl (fun m p => some (m.elim p.slack (min · p.slack))) none

/-- The largest slack of a list of points. -/
def maximumOf (points : List SlackPoint) : Option Slack :=
  points.foldl (fun m p => some (m.elim p.slack (max · p.slack))) none

/-- Drops the points whose slack repeats the slack of the last point kept. -/
def dropRepeats : Option Slack → List SlackPoint → List SlackPoint
  | _, [] => []
  | previous, p :: rest =>
    if previous = some p.slack then dropRepeats previous rest
    else p :: dropRepeats (some p.slack) rest

/-- Drops a first point of zero slack. -/
def dropLeadingZero : List SlackPoint → List SlackPoint
  | [] => []
  | p :: rest => if p.slack.val = 0 then rest else p :: rest

/-- Checks that timestamps strictly increase, starting after `previous`. -/
def checkSorted : Option Timestamp → List SlackPoint → Except IndexError Unit
  | _, [] => .ok ()
  | previous, p :: rest =>
    if previous.any (fun t => decide (p.timestamp < t)) then .error .unsortedSlackPoints
    else if previous = some p.timestamp then .error .duplicateSlackTimestamp
    else checkSorted (some p.timestamp) rest

namespace SlackBlock

/-- The empty block. -/
def empty : SlackBlock := ⟨[], none, none, ⟨0, I64.zero_range⟩⟩

/-- A block of the given points with exact aggregates and no delta. -/
def ofPoints (points : List SlackPoint) : SlackBlock :=
  ⟨points, minimumOf points, maximumOf points, ⟨0, I64.zero_range⟩⟩

/-- The loop that keeps a point unless it repeats the slack of the last point kept, whose
timestamp it must exceed. -/
def normalizePoints : Option SlackPoint → List SlackPoint → Except IndexError (List SlackPoint)
  | _, [] => .ok []
  | none, p :: rest => return p :: (← normalizePoints (some p) rest)
  | some previous, p :: rest =>
    if p.timestamp < previous.timestamp then .error .unsortedSlackPoints
    else if p.timestamp = previous.timestamp then .error .duplicateSlackTimestamp
    else if p.slack = previous.slack then normalizePoints (some previous) rest
    else return p :: (← normalizePoints (some p) rest)

/-- Creates a block from points ordered by timestamp, merging consecutive points of equal
slack. -/
def fromSortedPoints (points : List SlackPoint) : Except IndexError SlackBlock :=
  return ofPoints (← normalizePoints none points)

/-- Creates a block that keeps every point. -/
def fromSortedPointsPreservingBoundaries (points : List SlackPoint) :
    Except IndexError SlackBlock := do
  checkSorted none points
  return ofPoints points

/-- The points with the delta added to their slack. -/
def effectivePoints (b : SlackBlock) : Except IndexError (List SlackPoint) :=
  b.points.mapM fun p => return ⟨p.timestamp, ← addSlack p.slack b.slackDelta⟩

/-- Writes the delta into the points. -/
def materializeDelta (b : SlackBlock) : Except IndexError SlackBlock :=
  if b.slackDelta.val = 0 then .ok b
  else return { b with points := ← b.effectivePoints, slackDelta := ⟨0, I64.zero_range⟩ }

/-- Adds `delta` to every point, lazily. -/
def applyDelta (b : SlackBlock) (delta : Slack) : Except IndexError SlackBlock :=
  match b.minimumSlack, b.maximumSlack with
  | some currentMinimum, some currentMaximum => do
    let newMinimum ← addSlack currentMinimum delta
    let newMaximum ← addSlack currentMaximum delta
    let (points, newDelta) ← match b.slackDelta.checkedAdd delta with
      | some newDelta => .ok (b.points, newDelta)
      | none => do
        let materialized ← b.materializeDelta
        .ok (materialized.points, delta)
    return ⟨points, some newMinimum, some newMaximum, newDelta⟩
  | _, _ => .ok b

/-- Adds `delta` to a point whose index lies in a range. -/
def adjustPoint (start stop : Nat) (delta : Slack) (point : SlackPoint × Nat) :
    Except IndexError SlackPoint :=
  if start ≤ point.2 ∧ point.2 < stop then
    return ⟨point.1.timestamp, ← addSlack point.1.slack delta⟩
  else return point.1

/-- Writes the delta into the points and adds `delta` to the points with index from `start` to
before `stop`, merging points of equal slack. -/
def applyDeltaToPointRange (b : SlackBlock) (start stop : Nat) (delta : Slack) :
    Except IndexError SlackBlock :=
  if start > stop ∨ stop > b.points.length then .error .invalidPointRange
  else if start ≥ stop then .ok b
  else do
    let effective ← b.effectivePoints
    let adjusted ← effective.zipIdx.mapM (adjustPoint start stop delta)
    return ofPoints (dropRepeats none adjusted)

/-- Recomputes both aggregates from the points and the delta. -/
def recomputeAggregates (b : SlackBlock) : Except IndexError SlackBlock := do
  let effective ← b.effectivePoints
  return { b with minimumSlack := minimumOf effective, maximumSlack := maximumOf effective }

/-- Whether the block's first point is at or before `timestamp`. -/
def startsBy (timestamp : Timestamp) (b : SlackBlock) : Bool :=
  b.points.head?.any fun p => decide (p.timestamp ≤ timestamp)

/-- Binary search by timestamp: the index of the point at `timestamp`, or the index at which
such a point would be inserted. -/
def binarySearch (b : SlackBlock) (timestamp : Timestamp) : Except Nat Nat :=
  let index := (b.points.takeWhile fun p => decide (p.timestamp < timestamp)).length
  match b.points[index]? with
  | some p => if p.timestamp = timestamp then .ok index else .error index
  | none => .error index

end SlackBlock

/-- Which bound of the slack over an interval is asked for. -/
inductive SlackBound
  | minimum
  | maximum
  deriving DecidableEq

/-- The tighter of two values. -/
def SlackBound.combine : SlackBound → Slack → Slack → Slack
  | .minimum => min
  | .maximum => max

/-- The stored aggregate of a block. -/
def SlackBound.ofBlock : SlackBound → SlackBlock → Option Slack
  | .minimum => SlackBlock.minimumSlack
  | .maximum => SlackBlock.maximumSlack

namespace SlackTimeline

/-! ## Reading a timeline -/

/-- The timeline with zero slack at every timestamp. -/
def empty : SlackTimeline := ⟨[]⟩

/-- The effective slack at `timestamp`. -/
def slackAt (tl : SlackTimeline) (timestamp : Timestamp) : Except IndexError Slack :=
  match (tl.blocks.takeWhile (SlackBlock.startsBy timestamp)).getLast? with
  | none => .ok ⟨0, I64.zero_range⟩
  | some block =>
    match (block.points.takeWhile fun p => decide (p.timestamp ≤ timestamp)).getLast? with
    | none => .error .outOfBounds
    | some point => addSlack point.slack block.slackDelta

/-- The contribution of one block to a bound over an interval. -/
def blockBound (interval : Interval) (bound : SlackBound) (boundSlack : Slack)
    (block : SlackBlock) : Except IndexError Slack :=
  match block.points.head?, block.points.getLast? with
  | some first, some last =>
    if last.timestamp ≤ interval.start ∨ first.timestamp ≥ interval.stop then .ok boundSlack
    else if first.timestamp ≥ interval.start ∧ last.timestamp < interval.stop then
      match bound.ofBlock block with
      | none => .error .invalidPointRange
      | some blockSlack => .ok (bound.combine boundSlack blockSlack)
    else
      block.points.foldlM (fun acc p =>
        if p.timestamp ≤ interval.start ∨ p.timestamp ≥ interval.stop then .ok acc
        else return bound.combine acc (← addSlack p.slack block.slackDelta)) boundSlack
  | _, _ => .error .outOfBounds

/-- A bound of the effective slack over an interval. -/
def slackBound (tl : SlackTimeline) (interval : Interval) (bound : SlackBound) :
    Except IndexError Slack := do
  let initial ← tl.slackAt interval.start
  tl.blocks.foldlM (blockBound interval bound) initial

/-- The minimum effective slack throughout an interval. -/
def minimumSlack (tl : SlackTimeline) (interval : Interval) : Except IndexError Slack :=
  tl.slackBound interval .minimum

/-- The maximum effective slack throughout an interval. -/
def maximumSlack (tl : SlackTimeline) (interval : Interval) : Except IndexError Slack :=
  tl.slackBound interval .maximum

/-- All effective points in canonical chronological order. -/
def effectivePoints (tl : SlackTimeline) : Except IndexError (List SlackPoint) := do
  let points ← tl.blocks.mapM SlackBlock.effectivePoints
  return dropLeadingZero (dropRepeats none points.flatten)

/-- The deficits between consecutive effective points. -/
def deficitsBetween : List SlackPoint → Except IndexError (List SlackDeficit)
  | current :: next :: rest => do
    if current.slack.val < 0 then
      match Interval.new current.timestamp next.timestamp, BoundedInt.ofInt? (-current.slack.val) with
      | .ok interval, some amount =>
        return ⟨interval, amount⟩ :: (← deficitsBetween (next :: rest))
      | _, _ => .error .invalidPointRange
    else deficitsBetween (next :: rest)
  | _ => .ok []

/-- The normalized intervals whose effective slack is negative. -/
def deficitIntervals (tl : SlackTimeline) : Except IndexError (List SlackDeficit) := do
  deficitsBetween (← tl.effectivePoints)

/-- The block and point index of the point at `timestamp`. -/
def findExactPoint (tl : SlackTimeline) (timestamp : Timestamp) : Option (Nat × Nat) :=
  let insertion := (tl.blocks.takeWhile (SlackBlock.startsBy timestamp)).length
  if insertion = 0 then none
  else
    match tl.blocks[insertion - 1]? with
    | none => none
    | some block =>
      match block.binarySearch timestamp with
      | .ok pointIndex => some (insertion - 1, pointIndex)
      | .error _ => none

/-! ## Updating a timeline -/

/-- An update of a timeline, which may stop in the middle. -/
abbrev Update := EStateM IndexError SlackTimeline

/-- Reads the block at an index. -/
def getBlock (index : Nat) : Update SlackBlock := do
  match (← get).blocks[index]? with
  | some block => return block
  | none => throw .outOfBounds

/-- Overwrites the block at an index by the result of an operation on it. -/
def updateBlock (index : Nat) (f : SlackBlock → Except IndexError SlackBlock) : Update Unit := do
  let block ← getBlock index
  let block ← ofExcept (f block)
  modify fun tl => ⟨tl.blocks.set index block⟩

/-- Drops the blocks without points. -/
def retainNonEmpty : Update Unit :=
  modify fun tl => ⟨tl.blocks.filter fun b => !b.points.isEmpty⟩

/-- Splits a block that holds too many points. -/
def splitOversizedBlock (blockIndex : Nat) : Update Unit := do
  let block ← getBlock blockIndex
  if block.points.length ≤ maxPointsPerBlock then return
  updateBlock blockIndex SlackBlock.materializeDelta
  let block ← getBlock blockIndex
  let splitIndex := block.points.length / 2
  let rightPoints := block.points.drop splitIndex
  updateBlock blockIndex fun b => .ok { b with points := b.points.take splitIndex }
  updateBlock blockIndex SlackBlock.recomputeAggregates
  let right ← ofExcept (SlackBlock.fromSortedPointsPreservingBoundaries rightPoints)
  modify fun tl => ⟨tl.blocks.insertIdx (blockIndex + 1) right⟩

/-- Makes sure that there is a point at `timestamp`, without changing the slack anywhere. -/
def ensureBoundary (timestamp : Timestamp) : Update Unit := do
  let tl ← get
  if (tl.findExactPoint timestamp).isSome then return
  let slack ← ofExcept (tl.slackAt timestamp)
  if tl.blocks.isEmpty then
    let block ← ofExcept (SlackBlock.fromSortedPointsPreservingBoundaries [⟨timestamp, slack⟩])
    set (⟨[block]⟩ : SlackTimeline)
  else
    let insertion := (tl.blocks.takeWhile (SlackBlock.startsBy timestamp)).length
    let blockIndex := min (insertion - 1) (tl.blocks.length - 1)
    updateBlock blockIndex SlackBlock.materializeDelta
    updateBlock blockIndex fun block =>
      let pointIndex := match block.binarySearch timestamp with
        | .ok index => index
        | .error index => index
      .ok { block with points := block.points.insertIdx pointIndex ⟨timestamp, slack⟩ }
    updateBlock blockIndex SlackBlock.recomputeAggregates
    splitOversizedBlock blockIndex

/-- Removes the first point of the first block when its slack is zero. -/
def dropLeadingZeroPoint : Update Unit := do
  if (← get).blocks.isEmpty then return
  updateBlock 0 SlackBlock.materializeDelta
  let first ← getBlock 0
  if first.points.head?.any (fun p => decide (p.slack.val = 0)) then
    updateBlock 0 fun b => .ok { b with points := b.points.drop 1 }
    updateBlock 0 SlackBlock.recomputeAggregates

/-- Appends the block after `index` to the block at `index`. -/
def mergeWithNext (index : Nat) : Update Unit := do
  let right ← getBlock (index + 1)
  modify fun tl => ⟨tl.blocks.eraseIdx (index + 1)⟩
  updateBlock index SlackBlock.materializeDelta
  let right ← ofExcept right.materializeDelta
  updateBlock index fun b => .ok { b with points := b.points ++ right.points }
  updateBlock index fun b => SlackBlock.fromSortedPoints b.points

/-- Removes the first point of the block at `index`, and the block if it has no other. -/
def dropFirstPoint (index : Nat) : Update Unit := do
  updateBlock index SlackBlock.materializeDelta
  updateBlock index fun b => .ok { b with points := b.points.drop 1 }
  updateBlock index SlackBlock.recomputeAggregates
  if (← getBlock index).points.isEmpty then
    modify fun tl => ⟨tl.blocks.eraseIdx index⟩

/-- The rebalancing loop: neighbours that fit into one block are merged, and a block does not
begin with the slack that the block before it ends with.  Every round merges two blocks, drops a
point or goes on to the next block, so `fuel` bounds the rounds that a timeline needs. -/
def rebalanceFrom : Nat → Nat → Update Unit
  | 0, _ => return
  | fuel + 1, index => do
    if index + 1 < (← get).blocks.length then
      let left ← getBlock index
      let right ← getBlock (index + 1)
      if left.points.length + right.points.length ≤ maxPointsPerBlock then
        mergeWithNext index
        rebalanceFrom fuel index
      else
        match left.points.getLast?, right.points.head? with
        | some leftPoint, some rightPoint =>
          let leftSlack ← ofExcept (addSlack leftPoint.slack left.slackDelta)
          let rightSlack ← ofExcept (addSlack rightPoint.slack right.slackDelta)
          if leftSlack = rightSlack then
            dropFirstPoint (index + 1)
            rebalanceFrom fuel index
          else rebalanceFrom fuel (index + 1)
        | _, _ => throw .outOfBounds

/-- How many rounds the rebalancing loop can take. -/
def rebalanceFuel (tl : SlackTimeline) : Nat :=
  (tl.blocks.map fun b => b.points.length + 1).sum

/-- Restores the normal form after an update. -/
def normalizeAndRebalance : Update Unit := do
  retainNonEmpty
  dropLeadingZeroPoint
  retainNonEmpty
  rebalanceFrom (rebalanceFuel (← get)) 0

/-- Adds `delta` to the points between two boundary points, which lie in one block or in two
blocks with complete blocks in between. -/
def applyDeltaBetween (start stop : Nat × Nat) (delta : Slack) : Update Unit := do
  if start.1 = stop.1 then
    updateBlock start.1 fun b => b.applyDeltaToPointRange start.2 stop.2 delta
  else
    let startLen := (← getBlock start.1).points.length
    updateBlock start.1 fun b =>
      if start.2 = 0 then b.applyDelta delta
      else b.applyDeltaToPointRange start.2 startLen delta
    forM (List.range' (start.1 + 1) (stop.1 - (start.1 + 1))) fun index =>
      updateBlock index fun b => b.applyDelta delta
    if stop.2 > 0 then
      updateBlock stop.1 fun b => b.applyDeltaToPointRange 0 stop.2 delta

/-- Adds `delta` throughout an interval. -/
def applyDelta (interval : Interval) (delta : Slack) : Update Unit := do
  if delta.val = 0 then return
  let tl ← get
  let minimum ← ofExcept (tl.minimumSlack interval)
  let _ ← ofExcept (addSlack minimum delta)
  let maximum ← ofExcept (tl.maximumSlack interval)
  let _ ← ofExcept (addSlack maximum delta)
  ensureBoundary interval.stop
  ensureBoundary interval.start
  let tl ← get
  match tl.findExactPoint interval.start with
  | none => throw .invalidPointRange
  | some start =>
    match tl.findExactPoint interval.stop with
    | none => throw .invalidPointRange
    | some stop =>
      applyDeltaBetween start stop delta
      normalizeAndRebalance

/-! ## Rebuilding a timeline -/

/-- What happens to capacity and usage at one timestamp. -/
structure TimelineEvent where
  /-- The capacity from this timestamp on, if it changes. -/
  capacity : Option I128
  /-- The usage that starts here. -/
  usageStarted : U128
  /-- The usage that ends here. -/
  usageEnded : U128
  deriving DecidableEq

/-- Nothing happens. -/
def TimelineEvent.default : TimelineEvent := ⟨none, ⟨0, U128.zero_range⟩, ⟨0, U128.zero_range⟩⟩

/-- A quantity as a wide signed integer. -/
def wideCapacity (q : Quantity) : I128 :=
  ⟨q.val, by have := q.property; omega⟩

/-- A quantity as a wide unsigned integer. -/
def wideUsage (q : Quantity) : U128 :=
  ⟨q.val, by have := q.property; omega⟩

/-- Records the capacity changes of one segment. -/
def addSegmentEvents (events : OrderedMap Timestamp TimelineEvent) (segment : CapacitySegment) :
    OrderedMap Timestamp TimelineEvent :=
  let events := OrderedMap.upsert events segment.interval.start .default fun e =>
    { e with capacity := some (wideCapacity segment.capacity) }
  OrderedMap.upsert events segment.interval.stop .default fun e =>
    { e with capacity := some ⟨0, I128.zero_range⟩ }

/-- Records the usage changes of one claim. -/
def addClaimEvents (events : OrderedMap Timestamp TimelineEvent) (claim : Claim) :
    Except IndexError (OrderedMap Timestamp TimelineEvent) := do
  let start := events[claim.interval.start]?.getD .default
  let started ← (start.usageStarted.checkedAdd (wideUsage claim.quantity)).elim
    (.error .slackOverflow) .ok
  let events := events.insert claim.interval.start { start with usageStarted := started }
  let stop := events[claim.interval.stop]?.getD .default
  let ended ← (stop.usageEnded.checkedAdd (wideUsage claim.quantity)).elim
    (.error .slackOverflow) .ok
  return events.insert claim.interval.stop { stop with usageEnded := ended }

/-- The sweep over the events in chronological order, with the capacity and the usage before and
the slack of the last point kept. -/
def sweep (capacity : I128) (usage : U128) (previous : Option Slack) :
    List (Timestamp × TimelineEvent) → Except IndexError (List SlackPoint)
  | [] => .ok []
  | (timestamp, event) :: rest => do
    let capacity := event.capacity.getD capacity
    let usage ← (usage.checkedSub event.usageEnded).elim (.error .inconsistentUsage) .ok
    let usage ← (usage.checkedAdd event.usageStarted).elim (.error .slackOverflow) .ok
    let signedUsage : I128 ← (BoundedInt.tryFrom usage).elim (.error .slackOverflow) .ok
    let wideSlack ← (capacity.checkedSub signedUsage).elim (.error .slackOverflow) .ok
    let slack : Slack ← (BoundedInt.tryFrom wideSlack).elim (.error .slackOverflow) .ok
    if previous = some slack then sweep capacity usage previous rest
    else return ⟨timestamp, slack⟩ :: (← sweep capacity usage (some slack) rest)

/-- Cuts a list of points into chunks of at most `n + 1`, with `fuel` bounding their number. -/
def chunks (n : Nat) : Nat → List SlackPoint → List (List SlackPoint)
  | 0, _ => []
  | _, [] => []
  | fuel + 1, p :: rest => (p :: rest).take (n + 1) :: chunks n fuel ((p :: rest).drop (n + 1))

/-- Packs ordered points into blocks. -/
def blocksFromSortedPoints (points : List SlackPoint) : Except IndexError (List SlackBlock) := do
  let normalized ← SlackBlock.fromSortedPoints points
  let points := dropLeadingZero normalized.points
  (chunks (maxPointsPerBlock - 1) points.length points).mapM SlackBlock.fromSortedPoints

/-- Rebuilds slack from physical capacity and active claims. -/
def fromCapacityAndClaims (curve : CapacityCurve) (activeClaims : List Claim) :
    Except IndexError SlackTimeline := do
  let events := curve.segments.foldl addSegmentEvents ∅
  let events ← activeClaims.foldlM addClaimEvents events
  let points ← sweep ⟨0, I128.zero_range⟩ ⟨0, U128.zero_range⟩ none events.toList
  return ⟨← blocksFromSortedPoints points⟩

/-- Builds the initial slack from physical capacity. -/
def fromCapacityCurve (curve : CapacityCurve) : Except IndexError SlackTimeline :=
  fromCapacityAndClaims curve []

/-- The claims of held and committed promises on one pool. -/
def activeClaims (poolId : ResourcePoolId) (promises : List Promise) : List Claim :=
  ((promises.filter Promise.isActive).flatMap fun p => p.bundle.claims).filter fun c =>
    decide (c.poolId = poolId)

/-- Rebuilds one pool's slack from capacity and current promises. -/
def fromCapacityAndPromises (curve : CapacityCurve) (poolId : ResourcePoolId)
    (promises : List Promise) : Except IndexError SlackTimeline :=
  fromCapacityAndClaims curve (activeClaims poolId promises)

end SlackTimeline

end PromiseDb
