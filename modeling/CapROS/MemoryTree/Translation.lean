import CapROS.MemoryTree.Basic
import Mathlib.Tactic.Ring

/-!
# What an address of the memory tree means

The meaning of an address is a recursion over the tree in terms of numbers: a key passes on the
address below its guard, a GPT divides the address by the size of its slots, and the restrictions
are those of all keys and windows on the path.
-/

namespace CapROS.MemoryTree

/-! ## The meaning of an address -/

/-- The restrictions of a path together. -/
def restrictionsOf (trail : List (BitVec 8)) : BitVec 8 := trail.foldr (· ||| ·) 0

/-- The restriction `capros_Memory_readOnly`. -/
def isReadOnly (restrictions : BitVec 8) : Bool := restrictions.getLsbD 3

/-- Some key or window of the path is read only. -/
def readOnlyPath (trail : List (BitVec 8)) : Bool := trail.any isReadOnly

/-- The logarithm of the size of what a key designates. An `l2g` of 0 or above 64 is no limit. -/
def span (k : Key) : ℕ := if k.l2g = 0 then 64 else min k.l2g 64

/-- The page or GPT that a prepared key designates. -/
def designated (k : Key) : Except FaultCode MemObj :=
  match k.keyType with
  | .gpt => .ok (.gpt (pObj k))
  | .page => .ok (.page (pObj k))
  | .void => .error .invalidAddr
  | _ => .error .malformedSpace

/-- A place in the tree: an object, an offset into it, and the restrictions on the way to it. -/
structure Place where
  object : MemObj
  offset : ℕ
  trail : List (BitVec 8)
  deriving DecidableEq

/-- Following a key with an address. -/
def enterKey (mem : Memory) (write : Bool) (trail : List (BitVec 8)) (segKey : Key) (va : ℕ) :
    Except FaultCode Place := do
  let k := mem.keyPrepare segKey
  let object ← designated k
  if va / 2 ^ span k ≠ k.guard then .error .invalidAddr
  else
    let trail := trail ++ [k.keyPerms.zeroExtend 8]
    if readOnlyPath trail && write then .error .accessViolation
    else .ok { object, offset := va % 2 ^ span k, trail }

/-- The address of a window, a number of 64 bits. -/
def windowAddr (k : Key) : ℕ := (numberValue k).2.1.toNat * 2 ^ 32 + (numberValue k).1.toNat

/-- The restrictions of a window. -/
def windowRestrictions (k : Key) : BitVec 8 := ((numberValue k).2.2 >>> 8).truncate 8

/-- The key that a window is on: one of the GPT's own, or the background key. -/
def windowKey (mem : Memory) (background : Option ℕ) (gpt : Gpt) (k : Key) : Option Key :=
  let wslot := (numberValue k).2.2.toNat % 256
  if wslot < gptNSlots then some (gpt.keyAtSlot wslot)
  else if wslot = 0xff then background.map fun b => (mem.gpt b).keyAtSlot gptBackgroundSlot
  else none

/-- Going through a window, at `offset` in its slot. -/
def enterWindow (mem : Memory) (write : Bool) (background : Option ℕ) (gpt : Gpt)
    (trail : List (BitVec 8)) (k : Key) (offset : ℕ) :
    Except FaultCode (Key × ℕ × List (BitVec 8)) :=
  if ¬ 2 ^ gpt.curL2v ∣ windowAddr k then .error .malformedSpace
  else
    let trail := trail ++ [windowRestrictions k]
    if readOnlyPath trail && write then .error .accessViolation
    else
      match windowKey mem background gpt k with
      | some k' => .ok (k', offset + windowAddr k, trail)
      | none => .error .malformedSpace

/-- The key, the address and the restrictions with which the path goes on from a GPT. -/
def selectSlot (mem : Memory) (write : Bool) (background : Option ℕ) (gpt : Gpt)
    (trail : List (BitVec 8)) (offset : ℕ) : Except FaultCode (Key × ℕ × List (BitVec 8)) :=
  let ndx := offset / 2 ^ gpt.curL2v
  if gpt.maxSlot < ndx then .error .invalidAddr
  else if (gpt.keyAtSlot ndx).keyType = .number then
    enterWindow mem write background gpt trail (gpt.keyAtSlot ndx) (offset % 2 ^ gpt.curL2v)
  else .ok (gpt.keyAtSlot ndx, offset % 2 ^ gpt.curL2v, trail)

/-- The GPT whose background key applies below the GPT `o`. -/
def backgroundBelow (mem : Memory) (background : Option ℕ) (o : ℕ) : Option ℕ :=
  if (mem.gpt o).hasBackground then some o else background

/-- The translation from a place, through `depth` more GPTs at most: down to a page, or to a GPT
with slots smaller than `2 ^ stopL2v`. -/
def translateAt (mem : Memory) (write : Bool) (stopL2v : ℕ) :
    (depth : ℕ) → (background : Option ℕ) → Place → Except FaultCode Place
  | depth, background, place =>
    match place.object with
    | .page _ => if place.offset < erosPageSize then .ok place else .error .invalidAddr
    | .gpt o =>
      if (mem.gpt o).curL2v < stopL2v then .ok place
      else
        match depth with
        | 0 => .error .traverseLimit
        | depth + 1 => do
          let background := backgroundBelow mem background o
          let (k, offset, trail) ←
            selectSlot mem write background (mem.gpt o) place.trail place.offset
          let place ← enterKey mem write trail k offset
          translateAt mem write stopL2v depth background place

/-- The translation of an address in the space of a key. -/
def translate (mem : Memory) (write : Bool) (stopL2v : ℕ) (segKey : Key) (va : ℕ) :
    Except FaultCode Place := do
  let place ← enterKey mem write [] segKey va
  translateAt mem write stopL2v (maxSegDepth - 1) none place

/-! ## Paths -/

/-- The key `k`, followed with the address `va`, leads to the object at the offset. -/
structure Leads (mem : Memory) (k : Key) (va : ℕ) (object : MemObj) (offset : ℕ) : Prop where
  designates : designated (mem.keyPrepare k) = .ok object
  guard : va / 2 ^ span (mem.keyPrepare k) = (mem.keyPrepare k).guard
  offset_eq : offset = va % 2 ^ span (mem.keyPrepare k)

/-- The address `offset` in a GPT selects the key `k` with the address `va`, under the
restrictions of the window it goes through, if any. -/
inductive Selects (mem : Memory) (background : Option ℕ) (gpt : Gpt) (offset : ℕ) :
    Key → ℕ → List (BitVec 8) → Prop where
  | direct (hndx : offset / 2 ^ gpt.curL2v ≤ gpt.maxSlot)
      (htype : (gpt.keyAtSlot (offset / 2 ^ gpt.curL2v)).keyType ≠ .number) :
      Selects mem background gpt offset (gpt.keyAtSlot (offset / 2 ^ gpt.curL2v))
        (offset % 2 ^ gpt.curL2v) []
  | window {w k : Key} (hndx : offset / 2 ^ gpt.curL2v ≤ gpt.maxSlot)
      (hw : gpt.keyAtSlot (offset / 2 ^ gpt.curL2v) = w) (htype : w.keyType = .number)
      (halign : 2 ^ gpt.curL2v ∣ windowAddr w) (hk : windowKey mem background gpt w = some k) :
      Selects mem background gpt offset k (offset % 2 ^ gpt.curL2v + windowAddr w)
        [windowRestrictions w]

/-- A path down the tree of `n` GPTs, with the restrictions of all its keys and windows. -/
inductive Path (mem : Memory) :
    Option ℕ → MemObj → ℕ → List (BitVec 8) → ℕ → MemObj → ℕ → Prop where
  | here {background : Option ℕ} {object : MemObj} {offset : ℕ} :
      Path mem background object offset [] 0 object offset
  | down {background : Option ℕ} {o n offset va offset' : ℕ} {k : Key}
      {window trail : List (BitVec 8)} {object object' : MemObj} {offset'' : ℕ}
      (hsel : Selects mem (backgroundBelow mem background o) (mem.gpt o) offset k va window)
      (hlead : Leads mem k va object offset')
      (hrest : Path mem (backgroundBelow mem background o) object offset' trail n object' offset'') :
      Path mem background (.gpt o) offset
        (window ++ (mem.keyPrepare k).keyPerms.zeroExtend 8 :: trail) (n + 1) object' offset''

/-- A path from a key: the key is the first on it. -/
def KeyPath (mem : Memory) (segKey : Key) (va : ℕ) (trail : List (BitVec 8)) (n : ℕ)
    (object : MemObj) (offset : ℕ) : Prop :=
  ∃ first firstOffset rest, Leads mem segKey va first firstOffset ∧
    Path mem none first firstOffset rest n object offset ∧
    trail = (mem.keyPrepare segKey).keyPerms.zeroExtend 8 :: rest

variable {k : Key} {mem : Memory} {trail : List (BitVec 8)} {va stopL2v : ℕ} {write : Bool}

theorem of_enterKey_ok {place : Place} (h : enterKey mem write trail k va = .ok place) :
    Leads mem k va place.object place.offset ∧
      place.trail = trail ++ [(mem.keyPrepare k).keyPerms.zeroExtend 8] ∧
      (readOnlyPath place.trail && write) = false := by
  obtain ⟨object, hobject, h⟩ := of_bind_ok h
  simp only at h
  split at h
  · cases h
  · split at h
    · cases h
    · cases h
      exact ⟨⟨hobject, not_not.1 ‹_›, rfl⟩, rfl, by simpa using ‹¬(_ && _) = true›⟩

theorem of_selectSlot_ok {background : Option ℕ} {gpt : Gpt}
    {trail' : List (BitVec 8)} {offset : ℕ}
    (h : selectSlot mem write background gpt trail offset = .ok (k, va, trail')) :
    ∃ window, Selects mem background gpt offset k va window ∧ trail' = trail ++ window := by
  simp only [selectSlot] at h
  split at h
  · cases h
  case isFalse hndx =>
    split at h
    case isFalse htype =>
      cases h
      exact ⟨[], .direct (not_lt.1 hndx) htype, (List.append_nil trail).symm⟩
    case isTrue htype =>
      simp only [enterWindow] at h
      split at h
      · cases h
      case isFalse halign =>
        split at h
        · cases h
        · split at h
          · cases h
            exact ⟨_, .window (not_lt.1 hndx) rfl htype (not_not.1 halign) ‹_›, rfl⟩
          · cases h

theorem translateAt_path (depth : ℕ) :
    ∀ {background : Option ℕ} {place found : Place},
      (readOnlyPath place.trail && write) = false →
      translateAt mem write stopL2v depth background place = .ok found →
      ∃ trail n, n ≤ depth ∧
        Path mem background place.object place.offset trail n found.object found.offset ∧
        found.trail = place.trail ++ trail ∧ (readOnlyPath found.trail && write) = false := by
  induction depth with
  | zero =>
    intro background place found hro h
    have hsame : found = place := by
      unfold translateAt at h
      split at h
      · split at h <;> cases h
        rfl
      · split at h <;> cases h
        rfl
    subst hsame
    exact ⟨[], 0, le_rfl, .here, (List.append_nil _).symm, hro⟩
  | succ depth ih =>
    intro background place found hro h
    unfold translateAt at h
    split at h
    · split at h <;> cases h
      exact ⟨[], 0, Nat.zero_le _, .here, (List.append_nil _).symm, hro⟩
    · rename_i o hobject
      split at h
      · cases h
        exact ⟨[], 0, Nat.zero_le _, .here, (List.append_nil _).symm, hro⟩
      · obtain ⟨⟨k, va, trail'⟩, hslot, hbelow⟩ := of_bind_ok h
        obtain ⟨next, henter, hnext⟩ := of_bind_ok hbelow
        obtain ⟨window, hsel, htrail'⟩ := of_selectSlot_ok hslot
        obtain ⟨hlead, htrail, hro'⟩ := of_enterKey_ok henter
        obtain ⟨rest, n, hn, hpath, hfound, hdenied⟩ := ih hro' hnext
        rw [hobject]
        refine ⟨_, n + 1, by omega, .down hsel hlead hpath, ?_, hdenied⟩
        simp [hfound, htrail, htrail']

/-- A translation follows a path, and a translation for writing follows one without a read-only
key or window. -/
theorem translate_path {segKey : Key}
    {found : Place} (h : translate mem write stopL2v segKey va = .ok found) :
    ∃ n < maxSegDepth, KeyPath mem segKey va found.trail n found.object found.offset ∧
      (write = true → ∀ r ∈ found.trail, isReadOnly r = false) := by
  obtain ⟨first, henter, h⟩ := of_bind_ok h
  obtain ⟨hlead, htrail, hro⟩ := of_enterKey_ok henter
  obtain ⟨rest, n, hn, hpath, hfound, hdenied⟩ := translateAt_path _ hro h
  refine ⟨n, Nat.lt_of_le_of_lt hn (by decide),
    ⟨first.object, first.offset, rest, hlead, hpath, ?_⟩, fun hw => ?_⟩
  · simp [hfound, htrail]
  · simpa [hw, readOnlyPath] using hdenied

end CapROS.MemoryTree
