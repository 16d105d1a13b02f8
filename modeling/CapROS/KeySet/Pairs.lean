import CapROS.KeySet.FiniteMap

/-!
# The requests about two key sets

`AddKeysFromSet`, `RemoveKeysNotInSet` and `IsSubsetOfSet` of `base/domain/keyset/keyset.c`. The invoked key set
sorts its table, has the passed one do so and map its table, and walks over both. The passed key set serves no
other request meanwhile.
-/

namespace CapROS.KeySet

open Cells

/-- The loops of `AddKeysFromSet` over the entries that are left: the entries that are added. -/
def addWalk : List Entry → List Entry → List Entry
  | [], theirs => theirs
  | _ :: _, [] => []
  | my :: mine, their :: theirs =>
    let cmpres := compare my.w their.w
    if cmpres = 0 then addWalk mine theirs
    -- The result of `compare` is never more than 1.
    else if cmpres > 1 then their :: addWalk (my :: mine) theirs
    else addWalk mine (their :: theirs)
termination_by mine theirs => mine.length + theirs.length

/-- The loop of `RemoveKeysNotInSet`: the entries that stay. -/
def removeWalk : List Entry → List Entry → List Entry
  | [], _ => []
  | _ :: _, [] => []
  | my :: mine, their :: theirs =>
    let cmpres := compare my.w their.w
    if cmpres = 0 then my :: removeWalk mine theirs
    else if cmpres > 0 then removeWalk (my :: mine) theirs
    else removeWalk mine (their :: theirs)
termination_by mine theirs => mine.length + theirs.length

/-- The variables of `CompareSets`. -/
structure Flags where
  emptyintersect : Bool
  othermissing : Bool
  memissing : Bool
  datamismatch : Bool

/-- The loop of `CompareSets`, and what follows from the entries that are left. -/
def compareWalk (compareData : Bool) : List Entry → List Entry → Flags → Flags
  | [], theirs, f => { f with memissing := f.memissing || !theirs.isEmpty }
  | _ :: _, [], f => { f with othermissing := true }
  | my :: mine, their :: theirs, f =>
    let cmpres := compare my.w their.w
    if cmpres = 0 then
      let f := { f with emptyintersect := false }
      if compareData = true ∧ my.data ≠ their.data then { f with datamismatch := true }
      else compareWalk compareData mine theirs f
    else if cmpres > 0 then compareWalk compareData (my :: mine) theirs { f with memissing := true }
    else compareWalk compareData mine (their :: theirs) { f with othermissing := true }
termination_by mine theirs => mine.length + theirs.length

/-- The results of `CompareSets`. -/
inductive Comparison where
  | setsEqual
  | setContainsOtherSet
  | otherSetContainsSet
  | setsDisjoint
  | setsDifferent
  | dataMismatch
  deriving DecidableEq

/-- `CompareSets`, of two sorted tables. -/
def compareSets (compareData : Bool) (mine theirs : List Entry) : Comparison :=
  let f := compareWalk compareData mine theirs ⟨true, false, false, false⟩
  if compareData = true ∧ f.datamismatch = true then .dataMismatch
  else if f.memissing = false ∧ f.othermissing = false then .setsEqual
  else if f.emptyintersect = true then .setsDisjoint
  else if f.memissing = false ∧ f.othermissing = true then .setContainsOtherSet
  else if f.memissing = true ∧ f.othermissing = false then .otherSetContainsSet
  else .setsDifferent

inductive PairRequest where
  | addKeysFromSet
  | removeKeysNotInSet
  | isSubsetOfSet
  deriving DecidableEq

/-- A message with a key to the key set `j`, or with some other key (`none`), and the versions of the key bits
that the two key sets see. -/
structure PairMsg where
  rdOnly : Bool
  version : UInt32
  otherVersion : UInt32
  passed : Option ℕ
  request : PairRequest

namespace KeySetStat

/-- The sorted entries. -/
def sortedEntries (s : KeySetStat) : List Entry := read s.table 0 s.numSorted

/-- Entries are written at the end of the table. -/
def appendAll (s : KeySetStat) (l : List Entry) : KeySetStat :=
  { s with
    table := write s.table s.end_of_table l
    end_of_table := s.end_of_table + l.length
    numUnsorted := s.numUnsorted + l.length }

/-- `AddKeysFromSet`, when the other table is mapped. -/
def addKeysFromSet (capacity : ℕ) (s : KeySetStat) (theirs : List Entry) : Option KeySetStat :=
  let l := addWalk s.sortedEntries theirs
  if l = [] ∨ s.end_of_table + l.length ≤ capacity then some (s.appendAll l).tidy else none

/-- `RemoveKeysNotInSet`, when the other table is mapped. -/
def removeKeysNotInSet (s : KeySetStat) (theirs : List Entry) : KeySetStat :=
  let l := removeWalk s.sortedEntries theirs
  { s with table := write s.table 0 l, end_of_table := l.length, numSorted := l.length, numUnsorted := 0 }

/-- The passed key set sorts its table (`SlaveProtocol`, from its own `ProcessRequest`). -/
def getSegment (t : KeySetStat) (version : UInt32) : KeySetStat :=
  t.requireSorted.setVersion version (t.setInvalid version)

end KeySetStat

/-- What `VerifyAndGetSegmentOfSet` finds. -/
inductive Verified where
  /-- `RC_Internal_KeyToSelf`. -/
  | keyToSelf
  | passedSetInvalid
  /-- Not a key to a key set. -/
  | failed
  | segment (j : ℕ)

/-- `VerifyAndGetSegmentOfSet`, without the work of the passed key set. -/
def verify (sets : ℕ → KeySetStat) (i : ℕ) (msg : PairMsg) : Verified :=
  match msg.passed with
  | none => .failed
  | some j =>
    if j = i then .keyToSelf
    else if (sets j).setInvalid msg.otherVersion then .passedSetInvalid
    else .segment j

/-- The key set `i`, after its work with the tables `s` and `theirs`, and the result. -/
def combine (capacity : ℕ) (request : PairRequest) (s : KeySetStat) (theirs : List Entry) :
    Option (KeySetStat × ResultCode) :=
  match request with
  | .addKeysFromSet => (s.addKeysFromSet capacity theirs).map fun s => (s, .ok)
  | .removeKeysNotInSet => some (s.removeKeysNotInSet theirs, .ok)
  | .isSubsetOfSet =>
    let result := compareSets false s.sortedEntries theirs
    some (s, if result = .setsEqual ∨ result = .setContainsOtherSet then .ok else .one)

/-- The result when there is no other table. -/
def uncombined (request : PairRequest) : Verified → ResultCode
  | .keyToSelf => .ok
  | .passedSetInvalid => if request = .isSubsetOfSet then .one else .passedSetInvalid
  | _ => if request = .isSubsetOfSet then .one else .requestError

/-- The three cases of `ProcessRequest`, of a message to the key set `i`. -/
def pairCase (capacity : ℕ) (sets : ℕ → KeySetStat) (i : ℕ) (msg : PairMsg) :
    Option ((ℕ → KeySetStat) × ResultCode) :=
  if msg.request ≠ .isSubsetOfSet ∧ msg.rdOnly = true then some (sets, .unknownRequest)
  else if (sets i).setInvalid msg.version then some (sets, .setInvalid)
  else
    let s := (sets i).requireSorted
    match verify sets i msg with
    | .segment j =>
      let t := (sets j).getSegment msg.otherVersion
      (combine capacity msg.request s t.sortedEntries).map fun out =>
        (Function.update (Function.update sets j t) i out.1, out.2)
    | v => some (Function.update sets i s, uncombined msg.request v)

/-- `ProcessRequest`, for a message about two key sets. -/
def processPair (capacity : ℕ) (sets : ℕ → KeySetStat) (i : ℕ) (msg : PairMsg) :
    Option ((ℕ → KeySetStat) × Response) :=
  (pairCase capacity sets i msg).map fun out =>
    (Function.update out.1 i ((out.1 i).setVersion msg.version ((sets i).setInvalid msg.version)), ⟨out.2, 0⟩)

/-- A message to the key set `i`. -/
inductive Action where
  | single (i : ℕ) (msg : Msg)
  | pair (i : ℕ) (msg : PairMsg)

/-- A key set answers a message. -/
def exec (capacity : ℕ) (sets : ℕ → KeySetStat) : Action → Option ((ℕ → KeySetStat) × Response)
  | .single i msg => ((sets i).processRequest capacity msg).map fun out => (Function.update sets i out.1, out.2)
  | .pair i msg => processPair capacity sets i msg

end CapROS.KeySet
