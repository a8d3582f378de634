import SafePreview.Block.Basic

/-!
# The forest of a project's blocks

The blocks of a project name their parents, and nothing keeps whoever stores them from naming a
parent that does not exist, an id twice, or a chain of parents that never ends. `Forest.build` asks
for all of it before anything is shown, and gives the blocks in reading order: depth first, each
block before its children, siblings by their index.

The walk is a loop over a stack of blocks still to be visited. It starts from the roots and checks
each block against those already walked; a chain of parents without a root is never entered, so its
blocks are those that the walk did not reach. `Block.preorder` states the same order as a
recursion, without a stack and without a check.

The children of a parent are asked for an index that two of them share, one parent after another. In
which order this is done is left to the table that keeps the children by their parents, so it is a
parameter here, `ParentOrder`. A result does not depend on it, and of a defect only which parent is
named.
-/

namespace SafePreview

/-- **A block in its place**: its depth is the number of blocks above it. -/
structure Placed where
  block : Block
  depth : Nat
deriving DecidableEq

/-- **An order to go through parents in**: whichever a table gives them in. `none` stands for the
roots. -/
class ParentOrder where
  /-- The parents in this order. -/
  arranged : List (Option BlockId) → List (Option BlockId)
  /-- None is left out and none comes in. -/
  perm (parents : List (Option BlockId)) : (arranged parents).Perm parents

/-- Where one order has to be taken, it is that in which the parents are named first. -/
instance : ParentOrder := ⟨id, fun _ => .rfl⟩

namespace Block

/-- Whether a block belongs to the wanted project. One that names no project belongs to any. -/
def belongsTo (project : Option ProjectId) (block : Block) : Bool :=
  match project, block.project with
  | some wanted, some own => wanted = own
  | _, _ => true

/-- The blocks with the given parent, in ascending order of their index. -/
def childrenOf (blocks : List Block) (parent : Option BlockId) : List Block :=
  (blocks.filter (·.parent = parent)).mergeSort fun a b => a.sortIndex ≤ b.sortIndex

/-- **Reading order as a recursion**: the children of `parent`, each followed by its own, to at
most `levels` levels. -/
def preorder (blocks : List Block) : Nat → Nat → Option BlockId → List Placed
  | 0, _, _ => []
  | levels + 1, depth, parent =>
    (childrenOf blocks parent).flatMap fun block =>
      ⟨block, depth⟩ :: preorder blocks levels (depth + 1) (some block.id)

/-- The first block whose id an earlier one has. -/
def firstRepeated? : List BlockId → List Block → Option Block
  | _, [] => none
  | seen, block :: rest =>
    if block.id ∈ seen then some block else firstRepeated? (block.id :: seen) rest

/-- The first block whose parent is not there, with that parent. -/
def firstOrphan? (blocks : List Block) : Option (Block × BlockId) :=
  blocks.findSome? fun block => do
    let parent ← block.parent
    if blocks.any (·.id = parent) then none else some (block, parent)

/-- The first index that two neighbours share. -/
def firstSharedIndex? : List Block → Option Int
  | a :: b :: rest => if a.sortIndex = b.sortIndex then some a.sortIndex
    else firstSharedIndex? (b :: rest)
  | _ => none

/-- The parents that are named, each once. -/
def parents (blocks : List Block) : List (Option BlockId) := (blocks.map (·.parent)).eraseDups

/-- The first of some parents with two children of one index. -/
def clashAmong? (blocks : List Block) (parents : List (Option BlockId)) :
    Option (Option BlockId × Int) :=
  parents.findSome? fun parent =>
    (firstSharedIndex? (childrenOf blocks parent)).map fun index => (parent, index)

/-- The first parent with two children of one index. -/
def firstClash? [ParentOrder] (blocks : List Block) : Option (Option BlockId × Int) :=
  clashAmong? blocks (ParentOrder.arranged (parents blocks))

end Block

/-- **A forest**: the blocks of a project in reading order. -/
structure Forest where
  project : Option ProjectId
  order : List Placed

namespace Forest

/-- Blocks at one depth, as they wait to be visited. -/
def place (depth : Nat) (blocks : List Block) : List Placed := blocks.map (⟨·, depth⟩)

/-- **The walk**: takes the first block that waits, puts its children in front of the others, and
stops at a block that was walked before. `walked` is in reverse. No block is walked twice, so as
many steps as there are blocks are enough. -/
def walk (blocks : List Block) :
    (steps : Nat) → (waiting walked : List Placed) → Except TreeDefect (List Placed)
  | _, [], walked => .ok walked.reverse
  | 0, _ :: _, walked => .ok walked.reverse
  | steps + 1, next :: waiting, walked =>
    if walked.any (·.block.id = next.block.id) then .error (.cycle next.block.id)
    else
      walk blocks steps
        (place (next.depth + 1) (Block.childrenOf blocks (some next.block.id)) ++ waiting)
        (next :: walked)

/-- The reading order of blocks that all have their parents, or the defect that is met first: an
id given twice, a parent that is not there, an index given twice, a chain without a root. -/
def arrange [ParentOrder] (blocks : List Block) : Except TreeDefect (List Placed) :=
  match Block.firstRepeated? [] blocks with
  | some block => .error (.duplicateId block.id)
  | none =>
    match Block.firstOrphan? blocks with
    | some (block, parent) => .error (.missingParent block.id parent)
    | none =>
      match Block.firstClash? blocks with
      | some (parent, index) => .error (.duplicateSortIndex parent index)
      | none => do
        let order ← walk blocks (blocks.length + 1) (place 0 (Block.childrenOf blocks none)) []
        match blocks.find? fun block => !order.any (·.block.id = block.id) with
        | some stranded => .error (.cycle stranded.id)
        | none => .ok order

/-- **The forest of the blocks that belong to a project.** -/
def build [ParentOrder] (project : Option ProjectId) (blocks : List Block) :
    Except TreeDefect Forest := do
  return ⟨project, ← arrange (blocks.filter (·.belongsTo project))⟩

/-- The number of blocks. -/
def size (forest : Forest) : Nat := forest.order.length

/-- The blocks in reading order. -/
def blocks (forest : Forest) : List Block := forest.order.map (·.block)

/-- The block with an id. -/
def get? (forest : Forest) (id : BlockId) : Option Block :=
  (forest.order.find? (·.block.id = id)).map (·.block)

/-- **A block and everything below it**, in reading order and with the depths of the forest: the
block, and behind it the run of deeper ones. -/
def subtree (forest : Forest) (id : BlockId) : Except TreeDefect (List Placed) :=
  match forest.order.dropWhile (·.block.id ≠ id) with
  | [] => .error (.unknownBlock id)
  | root :: rest => .ok (root :: rest.takeWhile (root.depth < ·.depth))

end Forest

end SafePreview
