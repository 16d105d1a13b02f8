import CapROS.Kernel.Types
import CapROS.Theory.Tiling

/-!
# The range allocator

The allocator of `base/domain/rangeAl` keeps a table of the ranges of a 32-bit address space: those that are
not defined, those that are free and those that are allocated. The arithmetic is that of `unsigned long`.

* `Range`, `RA`: the table.
* `breakAndFix`, `combineFree`: a range is put into another one, free ranges are made one.
* `defineRange`, `requestRange`, `releaseRange`: the operations.
-/

namespace CapROS.RangeAllocator

def stackSize : ℕ := 128

/-- A value as `unsigned long`. -/
def ulong (x : ℕ) : ℕ := x % 2 ^ 32

/-- A difference of `unsigned long`s. -/
def ulongSub (a b : ℕ) : ℕ := (a + 2 ^ 32 - b) % 2 ^ 32

/-- The values of the field `free`. -/
inductive RangeType where
  | undefined
  | free
  | alloc
  deriving DecidableEq, Repr

structure Range where
  start : ℕ
  size : ℕ
  free : RangeType
  deriving DecidableEq, Repr

instance : Inhabited Range := ⟨⟨0, 0, .undefined⟩⟩

/-- `start + size`, where the range ends. -/
def Range.limit (r : Range) : ℕ := ulong (r.start + r.size)

inductive LastError where
  | noError
  | releaseFail
  | defineFail
  | requestFail
  | requestTaken
  deriving DecidableEq, Repr

/-- `struct RangeAllocator`: the first `size` elements of `stack`. -/
structure RA where
  stack : List Range
  lastError : LastError
  deriving DecidableEq, Repr

def createRangeAlloc : RA := ⟨[⟨0, 2 ^ 32 - 1, .undefined⟩], .noError⟩

/-- `BreakAndFix`: the new table and the place of the new range in it, or `none` for `-1`. The field `free`
of the new range is not initialized; the callers set it. -/
def breakAndFix (index : ℕ) (insert : Range) (stack : List Range) : Option (List Range × ℕ) :=
  let e := stack.getD index default
  let left : List Range :=
    if insert.start ≠ e.start then [⟨e.start, ulongSub insert.start e.start, e.free⟩] else []
  let lowSize := if insert.start ≠ e.start then ulongSub insert.start e.start else 0
  let right : List Range :=
    if insert.limit < e.limit then
      [⟨insert.limit, ulongSub (ulongSub e.size lowSize) insert.size, e.free⟩]
    else []
  if stackSize ≤ stack.length + (left.length + right.length) then none
  else some (stack.take index ++ (left ++ insert :: right) ++ stack.drop (index + 1), index + left.length)

/-- `stack[k].size += n`. -/
def grow (k n : ℕ) (stack : List Range) : List Range :=
  stack.modify k fun r => { r with size := ulong (r.size + n) }

def combineFree (i : ℕ) (stack : List Range) : List Range :=
  let previous : Bool := i ≠ 0 && (stack.getD (i - 1) default).free = .free
  let next : Bool := i ≠ stack.length - 1 && (stack.getD (i + 1) default).free = .free
  let sortStart := if previous then i - 1 else i
  let stack := if previous then grow (i - 1) (stack.getD i default).size stack else stack
  let stack := if next then grow sortStart (stack.getD (i + 1) default).size stack else stack
  -- Move ranges to replace emptied spots.
  stack.take (sortStart + 1) ++ stack.drop (sortStart + 1 + (previous.toNat + next.toNat))

/-- `stack[i].free = free`. -/
def setFree (i : ℕ) (type : RangeType) (stack : List Range) : List Range :=
  stack.modify i fun r => { r with free := type }

/-- The range that `DefineRange` looks for. -/
def encloses (start size : ℕ) (e : Range) : Bool := e.start ≤ start && ulong (start + size) ≤ e.limit

def defineRange (start size : ℕ) (ra : RA) : RA :=
  match ra.stack.findIdx? (encloses start size) with
  | none => { ra with lastError := .defineFail }
  | some i =>
    match breakAndFix i ⟨start, size, .undefined⟩ ra.stack with
    | none => { ra with lastError := .defineFail }
    | some (stack, i) => ⟨combineFree i (setFree i .free stack), .noError⟩

/-- The remainder of a division by zero. -/
inductive Trap where
  | divideByZero
  deriving DecidableEq, Repr

/-- The body of the loop in `RequestRange`: where in a range the request is placed, if anywhere. -/
def place (above below size alignment : ℕ) (e : Range) : Except Trap (Option ℕ) :=
  if above ≤ ulongSub e.limit 1 ∧ e.free = .free ∧ e.start ≤ below then
    let start := if e.start < above then above else e.start
    if alignment = 0 then .error .divideByZero
    else
      let remain := start % alignment
      if remain = 0 ∧ ulongSub (ulong (start + size)) 1 ≤ below then .ok (some start)
      else
        let remain := ulong (start + (alignment - remain))
        if ulong (remain + size) ≤ e.limit ∧ ulongSub (ulong (remain + size)) 1 ≤ below then .ok (some remain)
        else .ok none
  else .ok none

/-- The loop in `RequestRange`. -/
def findPlace (above below size alignment : ℕ) : ℕ → List Range → Except Trap (Option (ℕ × ℕ))
  | _, [] => .ok none
  | i, e :: stack => do
    match ← place above below size alignment e with
    | some start => .ok (some (i, start))
    | none => findPlace above below size alignment (i + 1) stack

def requestRange (above below size alignment : ℕ) (ra : RA) : Except Trap (RA × ℕ) := do
  match ← findPlace above below size alignment 0 ra.stack with
  | none => .ok ({ ra with lastError := .requestTaken }, 0)
  | some (i, start) =>
    match breakAndFix i ⟨start, size, .undefined⟩ ra.stack with
    | none => .ok ({ ra with lastError := .requestFail }, 0)
    | some (stack, i) => .ok (⟨setFree i .alloc stack, .noError⟩, start)

def releaseRange (start : ℕ) (ra : RA) : RA :=
  match ra.stack.findIdx? fun e => e.start = start with
  | none => { ra with lastError := .releaseFail }
  | some i =>
    if (ra.stack.getD i default).free ≠ .alloc then { ra with lastError := .noError }
    else ⟨combineFree i (setFree i .free ra.stack), .noError⟩

/-! ## The runs -/

/-- The requests. Their arguments are `unsigned long`s. -/
inductive Request where
  | define (start size : UInt32)
  | request (above below size alignment : UInt32)
  | release (start : UInt32)

/-- The allocator, and the starts and sizes of the ranges that were granted and not released since. -/
structure State where
  ra : RA
  grants : List (ℕ × ℕ)

def exec (s : State) : Request → Except Trap State
  | .define start size => .ok { s with ra := defineRange start.toNat size.toNat s.ra }
  | .request above below size alignment => do
    let (ra, start) ← requestRange above.toNat below.toNat size.toNat alignment.toNat s.ra
    .ok ⟨ra, if ra.lastError = .noError then (start, size.toNat) :: s.grants else s.grants⟩
  | .release start =>
    let ra := releaseRange start.toNat s.ra
    .ok ⟨ra, if ra.lastError = .noError then s.grants.filter fun g => g.1 ≠ start.toNat else s.grants⟩

/-- The states after sequences of requests that are all admitted. -/
inductive Reach (admitted : State → Request → Prop) : State → Prop where
  | init : Reach admitted ⟨createRangeAlloc, []⟩
  | step {s s'} (request : Request) : Reach admitted s → admitted s request → exec s request = .ok s' →
      Reach admitted s'

end CapROS.RangeAllocator
