import CapROS.KeySet.Table

/-!
# The requests of a key set

`ProcessRequest` of `base/domain/keyset/keyset.c`, for the requests about one key set. The key set has a table
with `numSorted` sorted entries and `numUnsorted` others. New entries go to `end_of_table`.

* `processRequest`: a request.
-/

namespace CapROS.KeySet

open Cells

/-- `MAX_UNSORTED`. -/
def MAX_UNSORTED : ℕ := 16

/-- `struct KeySetStat` and the table. `end_of_table` is an index into the table. -/
structure KeySetStat where
  table : ℕ → Entry
  end_of_table : ℕ
  numSorted : ℕ
  numUnsorted : ℕ
  startKeyBitsVersion : UInt32

/-- The result codes. Other requests than `RemoveKey` and `ContainsKey` answer no with `one`. -/
inductive ResultCode where
  | ok
  /-- `RC_KeySet_KeyNotInSet`. -/
  | one
  | setInvalid
  | passedSetInvalid
  | unknownRequest
  | requestError
  deriving DecidableEq

/-- An answer: the code and the word `w1`. -/
structure Response where
  code : ResultCode
  w1 : UInt32
  deriving DecidableEq

inductive Request where
  /-- With the data word. -/
  | addKey (data : UInt32)
  | removeKey
  | containsKey
  | isEmpty
  | empty

/-- A message: whether it came through a read-only key, and the bits of the key in it, with their version. -/
structure Msg where
  rdOnly : Bool
  version : UInt32
  w : KeyBits
  request : Request

namespace KeySetStat

/-- `Initialize`. The storage is new. -/
def init (version : UInt32) : KeySetStat := ⟨fun _ => ⟨⟨0, 0, 0, 0⟩, 0⟩, 0, 0, 0, version⟩

def size (s : KeySetStat) : ℕ := s.numSorted + s.numUnsorted

/-- The entries. -/
def entries (s : KeySetStat) : List Entry := read s.table 0 s.size

def find (s : KeySetStat) (toFind : KeyBits) : Option ℕ := findEntry s.table toFind s.numSorted s.numUnsorted

/-- `require_sorted_table`. -/
def requireSorted (s : KeySetStat) : KeySetStat :=
  if s.numUnsorted ≠ 0 then
    { s with
      table := sortTable s.table (s.numSorted + s.numUnsorted)
      numSorted := s.numSorted + s.numUnsorted
      numUnsorted := 0 }
  else s

/-- The key set is not empty, and the version of the key bits has changed. -/
def setInvalid (s : KeySetStat) (version : UInt32) : Prop :=
  version ≠ s.startKeyBitsVersion ∧ s.size ≠ 0

instance (s : KeySetStat) (version : UInt32) : Decidable (s.setInvalid version) :=
  inferInstanceAs (Decidable (_ ∧ _))

/-- The entry `i` gets another data word. -/
def setData (s : KeySetStat) (i : ℕ) (data : UInt32) : KeySetStat :=
  { s with table := Function.update s.table i ⟨(s.table i).w, data⟩ }

/-- An entry is written at the end of the table. -/
def append (s : KeySetStat) (e : Entry) : KeySetStat :=
  { s with
    table := Function.update s.table s.end_of_table e
    end_of_table := s.end_of_table + 1
    numUnsorted := s.numUnsorted + 1 }

/-- When there are too many unsorted entries, they are sorted in. -/
def tidy (s : KeySetStat) : KeySetStat := if MAX_UNSORTED < s.numUnsorted then s.requireSorted else s

/-- `OC_KeySet_AddKey`, of a valid key set. The table has room for `capacity` entries. -/
def addKey (capacity : ℕ) (s : KeySetStat) (w : KeyBits) (data : UInt32) : Option (KeySetStat × Response) :=
  match s.find w with
  | some i => some (s.setData i data, ⟨.ok, (s.table i).data⟩)
  | none => if s.end_of_table < capacity then some ((s.append ⟨w, data⟩).tidy, ⟨.ok, 0⟩) else none

/-- `OC_KeySet_ContainsKey`. The word `w1` has been set before. -/
def containsKey (s : KeySetStat) (w : KeyBits) (invalid : Prop) [Decidable invalid] (w1 : UInt32) : Response :=
  if invalid then ⟨.setInvalid, w1⟩
  else
    match s.find w with
    | none => ⟨.one, w1⟩
    | some i => ⟨.ok, (s.table i).data⟩

/-- The loop of `OC_KeySet_RemoveKey`, from `x` on. -/
def moveBack : ℕ → ℕ → (ℕ → Entry) → ℕ → Entry
  | 0, _, table => table
  | n + 1, x, table => moveBack n (x + 1) (Function.update table (x - 1) (table x))

/-- `OC_KeySet_RemoveKey`, of the entry `i`. The index `x` is computed as `the_table - entry`, in 32 bits. The
result is `none` where an entry is written before the table. Here `numUnsorted` can go below 0, which makes it
the largest number. All other sums of the counts are at most the number of entries that the table has room
for, unless they come after this, and nothing is said of such runs: in them the key set is wrong already. -/
def removeEntry (s : KeySetStat) (i : ℕ) : Option KeySetStat :=
  let x := (2 ^ 32 - i) % 2 ^ 32
  let max := s.numSorted + s.numUnsorted
  let s :=
    if x < s.numSorted then { s with numSorted := s.numSorted - 1 }
    else { s with numUnsorted := if s.numUnsorted = 0 then 2 ^ 32 - 1 else s.numUnsorted - 1 }
  let first := (x + 1) % 2 ^ 32
  if first = 0 ∧ 0 < max then none else some { s with table := moveBack (max - first) first s.table }

/-- `OC_KeySet_Empty`. -/
def empty (s : KeySetStat) : KeySetStat := { s with numSorted := 0, numUnsorted := 0 }

/-- The end of `ProcessRequest`: a key set that has become nonempty has the version of the request. -/
def setVersion (s : KeySetStat) (version : UInt32) (invalid : Prop) [Decidable invalid] : KeySetStat :=
  if version ≠ s.startKeyBitsVersion ∧ ¬invalid ∧ s.size ≠ 0 then { s with startKeyBitsVersion := version }
  else s

/-- The cases of `ProcessRequest`. A case without a `break` goes on with the next one. -/
def processCase (capacity : ℕ) (s : KeySetStat) (msg : Msg) : Option (KeySetStat × Response) :=
  match msg.request with
  | .addKey data =>
    if msg.rdOnly = true then some (s, ⟨.unknownRequest, 0⟩)
    else if s.setInvalid msg.version then some (s, ⟨.setInvalid, 0⟩)
    else s.addKey capacity msg.w data
  | .removeKey =>
    if msg.rdOnly = true then some (s, ⟨.unknownRequest, 0⟩)
    else if s.setInvalid msg.version then some (s, ⟨.setInvalid, 0⟩)
    else
      match s.find msg.w with
      | none => some (s, ⟨.one, 0⟩)
      | some i =>
        -- No `break`: the key is looked for again.
        match s.removeEntry i with
        | none => none
        | some s' => some (s', s'.containsKey msg.w False (s.table i).data)
  | .containsKey => some (s, s.containsKey msg.w (s.setInvalid msg.version) 0)
  | .isEmpty =>
    if s.setInvalid msg.version then some (s, ⟨.unknownRequest, 0⟩)
    -- No `break`: the code is set, and then the set is emptied.
    else if msg.rdOnly = true then some (s, ⟨.unknownRequest, 0⟩)
    else some (s.empty, ⟨.ok, 0⟩)
  | .empty =>
    if msg.rdOnly = true then some (s, ⟨.unknownRequest, 0⟩)
    else some (s.empty, ⟨.ok, 0⟩)

def processRequest (capacity : ℕ) (s : KeySetStat) (msg : Msg) : Option (KeySetStat × Response) :=
  (s.processCase capacity msg).map fun out => (out.1.setVersion msg.version (s.setInvalid msg.version), out.2)

end KeySetStat

end CapROS.KeySet
